/-
# Consistency of the allocator

The tracks and the owner table are updated by hand in several places.  `Inv` says what they
agree on between two operations of the allocator, and the file shows that every operation
keeps it.  `N` stands for the global registers that the region names: no other global is ever
brought into a register.
-/
import Rv32jit.Codegen.RegAlloc
import Rv32jit.Lib.FoldM

namespace Rv32jit.Qcg

open Qir ArchTraits

namespace QRegAlloc

/-! ### Reading an updated state -/

@[simp] lemma vregs_setTrack (ra : QRegAlloc) (v w : ℕ) (t : RTrack) :
    (ra.setTrack v t).vregs w = if w = v then t else ra.vregs w := by
  simp [setTrack, Function.update_apply]

@[simp] lemma p2v_setP2v (ra : QRegAlloc) (p q : ℕ) (v : Option ℕ) :
    (ra.setP2v p v).p2v q = if q = p then v else ra.p2v q := by
  simp [setP2v, Function.update_apply]

@[simp] lemma p2v_setTrack (ra : QRegAlloc) (v : ℕ) (t : RTrack) :
    (ra.setTrack v t).p2v = ra.p2v := rfl
@[simp] lemma nVregs_setTrack (ra : QRegAlloc) (v : ℕ) (t : RTrack) :
    (ra.setTrack v t).nVregs = ra.nVregs := rfl
@[simp] lemma frameCur_setTrack (ra : QRegAlloc) (v : ℕ) (t : RTrack) :
    (ra.setTrack v t).frameCur = ra.frameCur := rfl
@[simp] lemma code_setTrack (ra : QRegAlloc) (v : ℕ) (t : RTrack) :
    (ra.setTrack v t).code = ra.code := rfl
@[simp] lemma vregs_setP2v (ra : QRegAlloc) (p : ℕ) (v : Option ℕ) :
    (ra.setP2v p v).vregs = ra.vregs := rfl
@[simp] lemma nVregs_setP2v (ra : QRegAlloc) (p : ℕ) (v : Option ℕ) :
    (ra.setP2v p v).nVregs = ra.nVregs := rfl
@[simp] lemma frameCur_setP2v (ra : QRegAlloc) (p : ℕ) (v : Option ℕ) :
    (ra.setP2v p v).frameCur = ra.frameCur := rfl
@[simp] lemma code_setP2v (ra : QRegAlloc) (p : ℕ) (v : Option ℕ) :
    (ra.setP2v p v).code = ra.code := rfl
@[simp] lemma vregs_emit (ra : QRegAlloc) (i : Inst) : (ra.emit i).vregs = ra.vregs := rfl
@[simp] lemma p2v_emit (ra : QRegAlloc) (i : Inst) : (ra.emit i).p2v = ra.p2v := rfl
@[simp] lemma nVregs_emit (ra : QRegAlloc) (i : Inst) : (ra.emit i).nVregs = ra.nVregs := rfl
@[simp] lemma frameCur_emit (ra : QRegAlloc) (i : Inst) : (ra.emit i).frameCur = ra.frameCur := rfl
@[simp] lemma code_emit (ra : QRegAlloc) (i : Inst) : (ra.emit i).code = ra.code ++ [i] := rfl

@[simp] lemma vregs_release (ra : QRegAlloc) (v w : ℕ) :
    (ra.release false v).vregs w =
      if w = v then { ra.vregs v with loc := .MEM } else ra.vregs w := by
  by_cases hr : (ra.vregs v).loc = .REG <;> simp [release, hr]
@[simp] lemma nVregs_release (ra : QRegAlloc) (v : ℕ) :
    (ra.release false v).nVregs = ra.nVregs := by
  by_cases hr : (ra.vregs v).loc = .REG <;> simp [release, hr]
@[simp] lemma frameCur_release (ra : QRegAlloc) (v : ℕ) :
    (ra.release false v).frameCur = ra.frameCur := by
  by_cases hr : (ra.vregs v).loc = .REG <;> simp [release, hr]
@[simp] lemma code_release (ra : QRegAlloc) (v : ℕ) : (ra.release false v).code = ra.code := by
  by_cases hr : (ra.vregs v).loc = .REG <;> simp [release, hr]

lemma p2v_release_of_reg {ra : QRegAlloc} {v : ℕ} (hr : (ra.vregs v).loc = .REG) (p : ℕ) :
    (ra.release false v).p2v p = if p = (ra.vregs v).p then none else ra.p2v p := by
  simp [release, hr]

lemma p2v_release_of_ne {ra : QRegAlloc} {v : ℕ} (hr : (ra.vregs v).loc ≠ .REG) (p : ℕ) :
    (ra.release false v).p2v p = ra.p2v p := by
  simp [release, hr]

/-- The bytes `[a, a + k)` and `[b, b + l)` are disjoint. -/
def Disjoint (a k b l : ℕ) : Prop := a + k ≤ b ∨ b + l ≤ a

/-- What the tracks, the owner table and the frame agree on. -/
structure Inv (vi : VRegsInfo) (N : ℕ → Prop) (ra : QRegAlloc) : Prop where
  nVregs : ra.nVregs = vi.numAll
  isGlobal : ∀ v, (ra.vregs v).isGlobal = vi.isGlobal v
  type : ∀ v < ra.nVregs, vi.vregType v = some (ra.vregs v).type
  home : ∀ v g, vi.getGlobalInfo v = some g →
    (ra.vregs v).spillOffs = g.stateOffs ∧ (ra.vregs v).type = g.type
  outside : ∀ v, ra.nVregs ≤ v → (ra.vregs v).loc = .DEAD ∧ (ra.vregs v).spillSynced = false
  p2v : ∀ p v, ra.p2v p = some v ↔ (ra.vregs v).loc = .REG ∧ (ra.vregs v).p = p
  pool : ∀ p v, ra.p2v p = some v → p < N_PREGS ∧ GPR_FIXED.test p = false
  alive : ∀ v, (ra.vregs v).isGlobal = true → (ra.vregs v).loc ≠ .DEAD
  named : ∀ v, (ra.vregs v).isGlobal = true → (ra.vregs v).loc = .REG → N v
  frameSlot : ∀ v, (ra.vregs v).isGlobal = false → (ra.vregs v).spillOffs ≠ NO_SPILL →
    (ra.vregs v).spillOffs + (ra.vregs v).type.toSize ≤ ra.frameCur ∧
      (ra.vregs v).type.toSize ∣ (ra.vregs v).spillOffs
  frameApart : ∀ v w, v ≠ w → (ra.vregs v).isGlobal = false → (ra.vregs w).isGlobal = false →
    (ra.vregs v).spillOffs ≠ NO_SPILL → (ra.vregs w).spillOffs ≠ NO_SPILL →
    Disjoint (ra.vregs v).spillOffs (ra.vregs v).type.toSize
      (ra.vregs w).spillOffs (ra.vregs w).type.toSize
  frameEnd : ra.frameCur ≤ spillframe_size

variable {vi : VRegsInfo} {N : ℕ → Prop} {ra ra' : QRegAlloc}

namespace Inv

lemma lt_of_loc (h : Inv vi N ra) {v : ℕ} (hl : (ra.vregs v).loc ≠ .DEAD) : v < ra.nVregs := by
  by_contra hv
  exact hl (h.outside v (by omega)).1

lemma lt_of_global (h : Inv vi N ra) {v : ℕ} (hg : (ra.vregs v).isGlobal = true) :
    v < ra.nVregs :=
  h.lt_of_loc (h.alive v hg)

/-- A register in `REG` owns its physical register. -/
lemma owns (h : Inv vi N ra) {v : ℕ} (hl : (ra.vregs v).loc = .REG) :
    ra.p2v (ra.vregs v).p = some v :=
  (h.p2v _ _).mpr ⟨hl, rfl⟩

/-- No two virtual registers share a physical one. -/
lemma p_inj (h : Inv vi N ra) {v w : ℕ} (hv : (ra.vregs v).loc = .REG)
    (hw : (ra.vregs w).loc = .REG) (hp : (ra.vregs v).p = (ra.vregs w).p) : v = w := by
  have h1 := h.owns hv
  rw [hp, h.owns hw] at h1
  exact (Option.some.inj h1).symm

lemma getGlobalInfo_isSome (h : Inv vi N ra) {v : ℕ} (hg : (ra.vregs v).isGlobal = true) :
    ∃ g, vi.getGlobalInfo v = some g := by
  have hlt : vi.isGlobal v = true := by rw [← h.isGlobal v]; exact hg
  simp only [VRegsInfo.isGlobal, decide_eq_true_eq] at hlt
  exact ⟨_, List.getElem?_eq_getElem hlt⟩

lemma getGlobalInfo_none (h : Inv vi N ra) {v : ℕ} (hg : (ra.vregs v).isGlobal = false) :
    vi.getGlobalInfo v = none := by
  have hlt : vi.isGlobal v = false := by rw [← h.isGlobal v]; exact hg
  simp only [VRegsInfo.isGlobal, decide_eq_false_iff_not, Nat.not_lt] at hlt
  exact List.getElem?_eq_none hlt

/-- Distinct globals have disjoint homes. -/
lemma homes_apart (h : Inv vi N ra) {v w : ℕ} (hne : v ≠ w) (hv : (ra.vregs v).isGlobal = true)
    (hw : (ra.vregs w).isGlobal = true) :
    Disjoint (ra.vregs v).spillOffs (ra.vregs v).type.toSize
      (ra.vregs w).spillOffs (ra.vregs w).type.toSize := by
  obtain ⟨g, hg⟩ := h.getGlobalInfo_isSome hv
  obtain ⟨k, hk⟩ := h.getGlobalInfo_isSome hw
  have hvg := h.home v g hg
  have hwk := h.home w k hk
  rw [hvg.1, hvg.2, hwk.1, hwk.2]
  exact VRegsInfo.homes_apart hg hk hne

/-! ### The elementary updates -/

/-- Emitting code does not touch the bookkeeping. -/
lemma emit (h : Inv vi N ra) (i : Inst) : Inv vi N (ra.emit i) :=
  ⟨h.nVregs, h.isGlobal, h.type, h.home, h.outside, h.p2v, h.pool, h.alive, h.named, h.frameSlot,
    h.frameApart, h.frameEnd⟩

/-- The rule for an operation that changes the track of one register, but neither its type nor
its slot: what is left to show concerns the owner table and that register alone. -/
lemma update (h : Inv vi N ra) {v : ℕ} (hv : v < ra.nVregs) (hn : ra'.nVregs = ra.nVregs)
    (hf : ra'.frameCur = ra.frameCur) (hother : ∀ w, w ≠ v → ra'.vregs w = ra.vregs w)
    (hglob : (ra'.vregs v).isGlobal = (ra.vregs v).isGlobal)
    (htype : (ra'.vregs v).type = (ra.vregs v).type)
    (hslot : (ra'.vregs v).spillOffs = (ra.vregs v).spillOffs)
    (hp2v : ∀ p w, ra'.p2v p = some w ↔ (ra'.vregs w).loc = .REG ∧ (ra'.vregs w).p = p)
    (hpool : ∀ p w, ra'.p2v p = some w → p < N_PREGS ∧ GPR_FIXED.test p = false)
    (halive : (ra'.vregs v).loc ≠ .DEAD)
    (hnamed : (ra'.vregs v).isGlobal = true → (ra'.vregs v).loc = .REG → N v) :
    Inv vi N ra' := by
  have hG : ∀ w, (ra'.vregs w).isGlobal = (ra.vregs w).isGlobal := fun w => by
    by_cases hw : w = v
    · rw [hw, hglob]
    · rw [hother w hw]
  have hT : ∀ w, (ra'.vregs w).type = (ra.vregs w).type := fun w => by
    by_cases hw : w = v
    · rw [hw, htype]
    · rw [hother w hw]
  have hS : ∀ w, (ra'.vregs w).spillOffs = (ra.vregs w).spillOffs := fun w => by
    by_cases hw : w = v
    · rw [hw, hslot]
    · rw [hother w hw]
  constructor
  · rw [hn, h.nVregs]
  · intro w; rw [hG, h.isGlobal]
  · intro w hlt; rw [hT]; exact h.type w (by rwa [← hn])
  · intro w g hg; rw [hS, hT]; exact h.home w g hg
  · intro w hge
    rw [hother w (by omega)]
    exact h.outside w (by rwa [← hn])
  · exact hp2v
  · exact hpool
  · intro w hw
    by_cases hwv : w = v
    · subst hwv; exact halive
    · rw [hother w hwv] at hw ⊢; exact h.alive w hw
  · intro w hw hl
    by_cases hwv : w = v
    · subst hwv; exact hnamed hw hl
    · rw [hother w hwv] at hw hl; exact h.named w hw hl
  · intro w; rw [hG, hS, hT, hf]; exact h.frameSlot w
  · intro w x; rw [hG, hS, hT, hG, hS, hT]; exact h.frameApart w x
  · rw [hf]; exact h.frameEnd

/-- Changing the synced bit of a register that is not dead. -/
lemma setSynced (h : Inv vi N ra) {v : ℕ} (hl : (ra.vregs v).loc ≠ .DEAD) (b : Bool) :
    Inv vi N (ra.setTrack v { ra.vregs v with spillSynced := b }) := by
  refine h.update (h.lt_of_loc hl) rfl rfl (fun w hw => by simp [hw]) (by simp) (by simp)
    (by simp) ?_ h.pool (by simpa using hl) (fun hg hr => ?_)
  · intro p w
    rw [p2v_setTrack, h.p2v, vregs_setTrack]
    by_cases hw : w = v <;> simp [hw]
  · exact h.named v (by simpa using hg) (by simpa using hr)

/-- Taking a register out of `REG`; a register that was there is freed. -/
lemma release (h : Inv vi N ra) {v : ℕ} (hv : v < ra.nVregs) :
    Inv vi N (ra.release false v) := by
  have hp2v : ∀ p w, (ra.release false v).p2v p = some w ↔ ra.p2v p = some w ∧ w ≠ v := by
    intro p w
    by_cases hr : (ra.vregs v).loc = .REG
    · rw [p2v_release_of_reg hr]
      by_cases hp : p = (ra.vregs v).p
      · rw [if_pos hp, hp, h.owns hr]
        simp [eq_comm]
      · rw [if_neg hp]
        refine ⟨fun hw => ⟨hw, ?_⟩, fun hw => hw.1⟩
        rintro rfl
        exact hp ((h.p2v p w).mp hw).2.symm
    · rw [p2v_release_of_ne hr]
      refine ⟨fun hw => ⟨hw, ?_⟩, fun hw => hw.1⟩
      rintro rfl
      exact hr ((h.p2v p w).mp hw).1
  refine h.update hv (by simp) (by simp) (fun w hw => by simp [hw]) (by simp) (by simp) (by simp)
    ?_ (fun p w hp => h.pool p w ((hp2v p w).mp hp).1) (by simp) (by simp)
  intro p w
  rw [hp2v, h.p2v, vregs_release]
  by_cases hw : w = v <;> simp [hw]

/-- Giving a free register to `v`; the one that `v` had before, if any, is freed. -/
lemma assign (h : Inv vi N ra) {v p : ℕ} {b : Bool} (hv : v < ra.nVregs)
    (hfree : ra.p2v p = none) (hp : p < N_PREGS) (hfix : GPR_FIXED.test p = false)
    (hN : (ra.vregs v).isGlobal = true → N v) (hn : ra'.nVregs = ra.nVregs)
    (hf : ra'.frameCur = ra.frameCur) (hother : ∀ w, w ≠ v → ra'.vregs w = ra.vregs w)
    (hvt : ra'.vregs v = { ra.vregs v with loc := .REG, p := p, spillSynced := b })
    (hp2v : ∀ q, ra'.p2v q = if q = p then some v
      else if (ra.vregs v).loc = .REG ∧ q = (ra.vregs v).p then none else ra.p2v q) :
    Inv vi N ra' := by
  have howner : ∀ q w, ra'.p2v q = some w ↔ (q = p ∧ w = v) ∨ (w ≠ v ∧ ra.p2v q = some w) := by
    intro q w
    rw [hp2v]
    by_cases hq : q = p
    · subst hq
      simp [hfree, eq_comm]
    · by_cases hold : (ra.vregs v).loc = .REG ∧ q = (ra.vregs v).p
      · have := h.owns hold.1
        rw [← hold.2] at this
        rw [if_neg hq, if_pos hold, this]
        refine ⟨fun hw => absurd hw (by simp), ?_⟩
        rintro (⟨hq', -⟩ | ⟨hne, hw⟩)
        · exact absurd hq' hq
        · exact absurd (Option.some.inj hw).symm hne
      · simp only [hq, hold, if_false, false_and, false_or]
        refine ⟨fun hw => ⟨?_, hw⟩, fun hw => hw.2⟩
        rintro rfl
        have := (h.p2v q w).mp hw
        exact hold ⟨this.1, this.2.symm⟩
  refine h.update hv hn hf hother (by simp [hvt]) (by simp [hvt]) (by simp [hvt]) ?_ ?_
    (by simp [hvt]) (fun hg _ => hN (by simpa [hvt] using hg))
  · intro q w
    rw [howner]
    by_cases hw : w = v
    · subst hw; simp [hvt, eq_comm]
    · simp [hw, hother w hw, h.p2v]
  · intro q w hq
    rcases (howner q w).mp hq with ⟨rfl, -⟩ | ⟨-, hq⟩
    · exact ⟨hp, hfix⟩
    · exact h.pool q w hq

end Inv

end QRegAlloc

end Rv32jit.Qcg
