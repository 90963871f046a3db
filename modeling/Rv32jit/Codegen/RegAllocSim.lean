/-
# The allocator's moves preserve the machine's state

`Match` relates a state of the original code, in which registers are virtual, to a state of
the rewritten code, given what the allocator knows at that point.  Every operation of the
allocator inserts moves only.  Such a `Step` changes what the allocator knows, and running its
moves leads to a state that matches again, with the pinned physical registers unchanged.  `W`
stands for the local registers that have been written in the current block.
-/
import Rv32jit.Ir.Semantics
import Rv32jit.Codegen.RegAllocInv

namespace Rv32jit.Qcg

open Qir ArchTraits

namespace QRegAlloc

/-- Byte `x` of the CPU state belongs to a global whose register is newer than its home. -/
def DirtyAt (ra : QRegAlloc) (v x : ℕ) : Prop :=
  (ra.vregs v).isGlobal = true ∧ (ra.vregs v).loc = .REG ∧ (ra.vregs v).spillSynced = false ∧
    (ra.vregs v).spillOffs ≤ x ∧ x < (ra.vregs v).spillOffs + (ra.vregs v).type.toSize

/-- The value of a virtual register at its own type. -/
def valueOf (vi : VRegsInfo) (ra : QRegAlloc) (s : QState) (v : ℕ) : BitVec 32 :=
  readOpr vi s (.vgpr (ra.vregs v).type v)

/-- State `s` of the original code and state `s'` of the rewritten code agree. -/
structure Match (vi : VRegsInfo) (W : ℕ → Prop) (ra : QRegAlloc) (s s' : QState) : Prop where
  mem : s'.mem = s.mem
  cpu : ∀ x, (∀ v, ¬ ra.DirtyAt v x) → s'.cpu x = s.cpu x
  reg : ∀ v, (ra.vregs v).loc = .REG → ((ra.vregs v).isGlobal = true ∨ W v) →
    ByteMem.lowBytes (ra.vregs v).type.toSize (s'.preg (ra.vregs v).p) = ra.valueOf vi s v
  slot : ∀ v, (ra.vregs v).isGlobal = false → W v →
    ((ra.vregs v).loc = .MEM ∨ ((ra.vregs v).loc = .REG ∧ (ra.vregs v).spillSynced = true)) →
    (ra.vregs v).spillOffs ≠ NO_SPILL ∧
      s'.frame.load (ra.vregs v).spillOffs (ra.vregs v).type.toSize = ra.valueOf vi s v

variable {env : HelperEnv} {vi : VRegsInfo} {N W : ℕ → Prop} {ra ra' ra'' : QRegAlloc}
  {pin pin' : ℕ → Prop}

/-- The allocator goes from `ra` to `ra'` by inserting moves that keep the pinned registers. -/
def Step (env : HelperEnv) (vi : VRegsInfo) (N W pin : ℕ → Prop) (ra ra' : QRegAlloc) : Prop :=
  Inv vi N ra → Inv vi N ra' ∧ ∃ δ, ra'.code = ra.code ++ δ ∧
    ∀ s s', Match vi W ra s s' →
      ∃ s'', Quiet env vi δ s' s'' ∧ Match vi W ra' s s'' ∧ ∀ p, pin p → s''.preg p = s'.preg p

namespace Step

lemma refl (ra : QRegAlloc) : Step env vi N W pin ra ra :=
  fun h => ⟨h, [], by simp, fun _ s' hm => ⟨s', .nil s', hm, fun _ _ => rfl⟩⟩

lemma trans (h1 : Step env vi N W pin ra ra') (h2 : Step env vi N W pin ra' ra'') :
    Step env vi N W pin ra ra'' := by
  intro h
  obtain ⟨h', δ, hδ, hs⟩ := h1 h
  obtain ⟨h'', ε, hε, ht⟩ := h2 h'
  refine ⟨h'', δ ++ ε, by rw [hε, hδ, List.append_assoc], fun s s' hm => ?_⟩
  obtain ⟨s1, q1, m1, p1⟩ := hs s s' hm
  obtain ⟨s2, q2, m2, p2⟩ := ht s s1 m1
  exact ⟨s2, q1.append q2, m2, fun p hp => by rw [p2 p hp, p1 p hp]⟩

lemma mono (h : Step env vi N W pin ra ra') (hp : ∀ p, pin' p → pin p) :
    Step env vi N W pin' ra ra' := by
  intro hi
  obtain ⟨h', δ, hδ, hs⟩ := h hi
  refine ⟨h', δ, hδ, fun s s' hm => ?_⟩
  obtain ⟨s1, q1, m1, p1⟩ := hs s s' hm
  exact ⟨s1, q1, m1, fun p hpp => p1 p (hp p hpp)⟩

/-- A change of the bookkeeping alone. -/
lemma of_match (hi : Inv vi N ra → Inv vi N ra') (hc : ra'.code = ra.code)
    (hm : Inv vi N ra → ∀ s s', Match vi W ra s s' → Match vi W ra' s s') :
    Step env vi N W pin ra ra' :=
  fun h => ⟨hi h, [], by simp [hc], fun s s' h' => ⟨s', .nil s', hm h s s' h', fun _ _ => rfl⟩⟩

/-- A step that needs the invariant may assume it. -/
lemma of_inv (h : Inv vi N ra → Step env vi N W pin ra ra') : Step env vi N W pin ra ra' :=
  fun hi => h hi hi

end Step

/-! ### Spilling -/

lemma allocFrameSlot_eq_some {v : ℕ} (h : ra.allocFrameSlot v = some ra') :
    (ra.vregs v).spillOffs = NO_SPILL ∧ (ra.vregs v).isGlobal = false ∧
      ∃ o, ra.frameCur ≤ o ∧ (ra.vregs v).type.toSize ∣ o ∧
        o + (ra.vregs v).type.toSize ≤ spillframe_size ∧
        ra' = { ra.setTrack v { ra.vregs v with spillOffs := o } with
          frameCur := o + (ra.vregs v).type.toSize } := by
  simp only [allocFrameSlot] at h
  split at h
  · cases h
  · rename_i hc
    push Not at hc
    split at h
    · cases h
    · rename_i hle
      refine ⟨hc.1, by simpa using hc.2.1, _, ?_, ?_, by omega, (Option.some.inj h).symm⟩
      · have hpos : 0 < (ra.vregs v).type.toSize := by
          cases ht : (ra.vregs v).type <;> simp_all [VType.toSize]
        have := Nat.div_add_mod (ra.frameCur + ((ra.vregs v).type.toSize - 1))
          (ra.vregs v).type.toSize
        have hlt := Nat.mod_lt (ra.frameCur + ((ra.vregs v).type.toSize - 1)) hpos
        rw [Nat.mul_comm] at this
        simp only [roundup]
        omega
      · exact Dvd.intro_left _ rfl

/-- A fresh frame slot changes no register. -/
lemma step_allocFrameSlot {v : ℕ} (h : ra.allocFrameSlot v = some ra')
    (hl : (ra.vregs v).loc = .REG) (hs : (ra.vregs v).spillSynced = false) :
    Step env vi N W pin ra ra' := by
  obtain ⟨hno, hloc, o, hge, hdvd, hle, rfl⟩ := allocFrameSlot_eq_some h
  refine Step.of_match (fun hi => ?_) rfl (fun hi s s' hm => ?_)
  · have hlt := hi.lt_of_loc (v := v) (by simp [hl])
    refine ⟨hi.nVregs, fun w => ?_, fun w hw => ?_, fun w g hg => ?_, fun w hw => ?_,
      fun p w => ?_, hi.pool, fun w => ?_, fun w => ?_, fun w => ?_, fun w x hne => ?_, hle⟩
    all_goals simp only [vregs_setTrack]
    · by_cases hwv : w = v <;> simp [hwv, hi.isGlobal]
    · by_cases hwv : w = v
      · subst hwv; simpa using hi.type w hlt
      · simpa [hwv] using hi.type w hw
    · have hwv : w ≠ v := by
        rintro rfl
        rw [hi.getGlobalInfo_none hloc] at hg
        cases hg
      simpa [hwv] using hi.home w g hg
    · have hwv : w ≠ v := by rintro rfl; exact absurd hw (by simpa using hlt)
      simpa [hwv] using hi.outside w hw
    · have := hi.p2v p w
      by_cases hwv : w = v
      · subst hwv; simpa using this
      · simpa [hwv] using this
    · by_cases hwv : w = v
      · subst hwv; simp [hloc]
      · simpa [hwv] using hi.alive w
    · by_cases hwv : w = v
      · subst hwv; simp [hloc]
      · simpa [hwv] using hi.named w
    · intro hg hn
      by_cases hwv : w = v
      · subst hwv; simpa using hdvd
      · simp only [hwv, if_false] at hg hn ⊢
        have := hi.frameSlot w hg hn
        exact ⟨by omega, this.2⟩
    · intro hgw hgx hnw hnx
      by_cases hwv : w = v
      · have hxv : x ≠ v := fun hx => hne (hwv.trans hx.symm)
        simp only [hwv, hxv, if_true, if_false] at hgx hnx ⊢
        have := hi.frameSlot x hgx hnx
        exact Or.inr (by omega)
      · by_cases hxv : x = v
        · simp only [hwv, hxv, if_true, if_false] at hgw hnw ⊢
          have := hi.frameSlot w hgw hnw
          exact Or.inl (by omega)
        · simp only [hwv, hxv, if_false] at hgw hgx hnw hnx ⊢
          exact hi.frameApart w x hne hgw hgx hnw hnx
  · refine ⟨hm.mem, fun x hx => hm.cpu x fun w hw => hx w ?_, fun w => ?_, fun w => ?_⟩
    · have hwv : w ≠ v := by rintro rfl; simp [DirtyAt, hloc] at hw
      simpa [DirtyAt, hwv] using hw
    · by_cases hwv : w = v
      · subst hwv; simpa [valueOf] using hm.reg w
      · simpa [hwv, valueOf] using hm.reg w
    · by_cases hwv : w = v
      · subst hwv; simp [hl, hs]
      · simpa [hwv, valueOf] using hm.slot w

/-- Writing a dirty register to its slot makes it synced. -/
lemma step_store {v : ℕ} (hl : (ra.vregs v).loc = .REG)
    (hslot : (ra.vregs v).isGlobal = false → (ra.vregs v).spillOffs ≠ NO_SPILL) :
    Step env vi N W pin ra
      ((ra.emit (.mkMov (slotOf (ra.vregs v)) (.pgpr (ra.vregs v).type (ra.vregs v).p))).setTrack v
        { ra.vregs v with spillSynced := true }) := by
  intro hi
  refine ⟨(hi.emit _).setSynced (by simp [hl]) true, _, rfl, fun s s' hm => ?_⟩
  refine ⟨_, Quiet.mov rfl rfl s', ?_, fun p _ => ?_⟩
  · by_cases hg : (ra.vregs v).isGlobal = true
    · -- a global: its home now holds the register
      obtain ⟨g, hgi⟩ := hi.getGlobalInfo_isSome hg
      obtain ⟨hoffs, -⟩ := hi.home v g hgi
      have hv : ByteMem.lowBytes (ra.vregs v).type.toSize (s'.preg (ra.vregs v).p) =
          s.cpu.load (ra.vregs v).spillOffs (ra.vregs v).type.toSize := by
        rw [hm.reg v hl (Or.inl hg), hoffs]
        simp [valueOf, readOpr, hgi]
      simp only [slotOf, hg, writeOpr, readOpr]
      refine ⟨hm.mem, fun x hx => ?_, fun w hw => ?_, fun w => ?_⟩
      · by_cases hin : (ra.vregs v).spillOffs ≤ x ∧
            x < (ra.vregs v).spillOffs + (ra.vregs v).type.toSize
        · exact ByteMem.store_apply_of_load_eq (VType.toSize_le _) (by simpa using hv) hin
        · refine (ByteMem.store_apply_of_notMem _ (by omega)).trans (hm.cpu x fun w hw => hx w ?_)
          have hwv : w ≠ v := by rintro rfl; exact hin hw.2.2.2
          simpa [DirtyAt, hwv] using hw
      · by_cases hwv : w = v
        · subst hwv; simpa [valueOf] using hm.reg w hl (Or.inl hg)
        · simpa [hwv, valueOf] using hm.reg w (by simpa [hwv] using hw)
      · by_cases hwv : w = v
        · subst hwv; simp
        · simpa [hwv, valueOf] using hm.slot w
    · -- a local: its frame slot does
      simp only [Bool.not_eq_true] at hg
      simp only [slotOf, hg, writeOpr, readOpr]
      refine ⟨hm.mem, fun x hx => hm.cpu x fun w hw => hx w ?_, fun w hw => ?_, fun w => ?_⟩
      · have hwv : w ≠ v := by rintro rfl; simp [DirtyAt, hg] at hw
        simpa [DirtyAt, hwv] using hw
      · by_cases hwv : w = v
        · subst hwv; simpa [valueOf, hg] using fun hW => hm.reg w hl (Or.inr hW)
        · simpa [hwv, valueOf] using hm.reg w (by simpa [hwv] using hw)
      · intro hgw hWw hlw
        by_cases hwv : w = v
        · subst hwv
          simp only [vregs_setTrack, vregs_emit, if_true, ByteMem.load_store]
          refine ⟨hslot hg, ?_⟩
          rw [ByteMem.lowBytes_lowBytes, min_self, hm.reg w hl (Or.inr hWw)]
          simp [valueOf]
        · simp only [vregs_setTrack, vregs_emit, hwv, if_false] at hgw hlw ⊢
          obtain ⟨hno, hld⟩ := hm.slot w hgw hWw hlw
          refine ⟨hno, ?_⟩
          rw [ByteMem.load_store_disjoint _ _ (hi.frameApart w v hwv hgw hg hno (hslot hg)), hld]
          simp [valueOf, hwv]
  · by_cases hg : (ra.vregs v).isGlobal = true <;> simp [slotOf, hg, writeOpr]

/-- What `SyncSpill` does to the bookkeeping. -/
structure SyncSpec (v : ℕ) (ra ra' : QRegAlloc) : Prop where
  other : ∀ w, w ≠ v → ra'.vregs w = ra.vregs w
  p2v : ra'.p2v = ra.p2v
  nVregs : ra'.nVregs = ra.nVregs
  isGlobal : (ra'.vregs v).isGlobal = (ra.vregs v).isGlobal
  type : (ra'.vregs v).type = (ra.vregs v).type
  p : (ra'.vregs v).p = (ra.vregs v).p
  loc : (ra'.vregs v).loc = (ra.vregs v).loc
  synced : (ra.vregs v).loc = .REG → (ra'.vregs v).spillSynced = true

lemma SyncSpec.refl {v : ℕ} (h : (ra.vregs v).loc = .REG → (ra.vregs v).spillSynced = true) :
    SyncSpec v ra ra :=
  ⟨fun _ _ => rfl, rfl, rfl, rfl, rfl, rfl, rfl, h⟩

variable (env vi N W pin) in
lemma step_syncSpill {v : ℕ} (h : ra.syncSpill v = some ra') :
    Step env vi N W pin ra ra' ∧ SyncSpec v ra ra' := by
  simp only [syncSpill] at h
  split at h
  · rename_i hs
    cases h
    exact ⟨.refl ra, .refl fun _ => hs⟩
  rename_i hs
  simp only [Bool.not_eq_true] at hs
  split at h
  · rename_i hl
    cases h
    exact ⟨.refl ra, .refl fun hr => by simp [hl] at hr⟩
  · rename_i hl
    obtain ⟨ra1, h1, h2⟩ := Option.bind_eq_some_iff.mp h
    cases h2
    simp only [emitSpill] at h1
    split at h1
    · obtain ⟨ra2, h3, h4⟩ := Option.bind_eq_some_iff.mp h1
      cases h4
      obtain ⟨-, hloc, o, -, -, hle, rfl⟩ := allocFrameSlot_eq_some h3
      refine ⟨(step_allocFrameSlot h3 hl hs).trans (step_store (by simp [hl]) fun _ => ?_), ?_⟩
      · simp only [vregs_setTrack, if_true, NO_SPILL, spillframe_size] at hle ⊢
        omega
      · refine ⟨fun w hw => by simp [hw], rfl, rfl, ?_, ?_, ?_, ?_, ?_⟩ <;> simp
    · rename_i hc
      cases h1
      refine ⟨step_store hl fun hg => ?_, ?_⟩
      · simpa [hg] using hc
      · refine ⟨fun w hw => by simp [hw], rfl, rfl, ?_, ?_, ?_, ?_, ?_⟩ <;> simp
  · cases h

/-- A register whose value is safe in its slot, or no longer needed, leaves `REG`. -/
lemma step_release {v : ℕ} (hv : v < ra.nVregs) (hl : (ra.vregs v).loc = .DEAD → ¬ W v)
    (hs : (ra.vregs v).loc = .REG → (ra.vregs v).isGlobal = true ∨ W v →
      (ra.vregs v).spillSynced = true) :
    Step env vi N W pin ra (ra.release false v) := by
  refine Step.of_match (fun hi => hi.release hv) (by simp) (fun hi s s' hm => ?_)
  refine ⟨hm.mem, fun x hx => hm.cpu x fun w hw => hx w ?_, fun w => ?_, fun w => ?_⟩
  · have hwv : w ≠ v := by
      rintro rfl
      have := hs hw.2.1 (Or.inl hw.1)
      rw [hw.2.2.1] at this
      cases this
    simpa [DirtyAt, hwv] using hw
  · by_cases hwv : w = v
    · subst hwv; simp
    · simpa [hwv, valueOf] using hm.reg w
  · by_cases hwv : w = v
    · subst hwv
      intro hg hW _
      simp only [vregs_release, if_true, valueOf] at hg ⊢
      refine hm.slot w hg hW ?_
      cases hloc : (ra.vregs w).loc with
      | DEAD => exact absurd hW (hl hloc)
      | MEM => exact Or.inl rfl
      | REG => exact Or.inr ⟨rfl, hs hloc (Or.inr hW)⟩
    · simpa [hwv, valueOf] using hm.slot w

/-- What `Spill` does to the bookkeeping. -/
structure SpillSpec (v : ℕ) (ra ra' : QRegAlloc) : Prop where
  other : ∀ w, w ≠ v → ra'.vregs w = ra.vregs w
  nVregs : ra'.nVregs = ra.nVregs
  isGlobal : (ra'.vregs v).isGlobal = (ra.vregs v).isGlobal
  type : (ra'.vregs v).type = (ra.vregs v).type
  loc : (ra'.vregs v).loc = .MEM
  p2v : ∀ p, ra'.p2v p =
    if (ra.vregs v).loc = .REG ∧ p = (ra.vregs v).p then none else ra.p2v p

variable (env vi N W pin) in
lemma step_spill {v : ℕ} (hl : (ra.vregs v).loc ≠ .DEAD) (h : ra.spill v = some ra') :
    Step env vi N W pin ra ra' ∧ SpillSpec v ra ra' := by
  simp only [spill] at h
  obtain ⟨ra1, h1, h2⟩ := Option.bind_eq_some_iff.mp h
  cases h2
  obtain ⟨hstep, hspec⟩ := step_syncSpill env vi N W pin h1
  refine ⟨Step.of_inv fun hi => hstep.trans (step_release ?_ (fun hd => ?_) fun hr _ => ?_), ?_⟩
  · rw [hspec.nVregs]
    exact hi.lt_of_loc hl
  · rw [hspec.loc] at hd
    exact absurd hd hl
  · exact hspec.synced (by rwa [← hspec.loc])
  · refine ⟨fun w hw => by simp [hw, hspec.other w hw], by simp [hspec.nVregs],
      by simp [hspec.isGlobal], by simp [hspec.type], by simp, fun p => ?_⟩
    by_cases hr : (ra.vregs v).loc = .REG
    · rw [p2v_release_of_reg (by rwa [hspec.loc]), hspec.p, hspec.p2v]
      simp [hr]
    · rw [p2v_release_of_ne (by rwa [hspec.loc]), hspec.p2v]
      simp [hr]

variable (env W pin) in
lemma step_spillPreg {p : ℕ} (hi : Inv vi N ra) (h : ra.spillPreg p = some ra') :
    Step env vi N W pin ra ra' ∧ ra'.nVregs = ra.nVregs ∧
      (∀ q, ra'.p2v q = if q = p then none else ra.p2v q) ∧
      (∀ w, ¬ ((ra.vregs w).loc = .REG ∧ (ra.vregs w).p = p) → ra'.vregs w = ra.vregs w) ∧
      ∀ w, (ra.vregs w).loc = .REG → (ra.vregs w).p = p → (ra'.vregs w).loc = .MEM := by
  simp only [spillPreg] at h
  split at h
  · rename_i hp
    cases h
    refine ⟨.refl ra, rfl, fun q => ?_, fun _ _ => rfl, fun w hl hw => ?_⟩
    · by_cases hq : q = p <;> simp [hq, hp]
    · rw [← hw, hi.owns hl] at hp
      cases hp
  · rename_i v hp
    obtain ⟨hl, hpv⟩ := (hi.p2v p v).mp hp
    obtain ⟨hstep, hspec⟩ := step_spill env vi N W pin
      (by simp [hl]) h
    refine ⟨hstep, hspec.nVregs, fun q => ?_, fun w hw => ?_, fun w hlw hw => ?_⟩
    · rw [hspec.p2v, hpv]
      simp [hl]
    · refine hspec.other w ?_
      rintro rfl
      exact hw ⟨hl, hpv⟩
    · have : w = v := hi.p_inj hlw hl (hw.trans hpv.symm)
      subst this
      exact hspec.loc

/-! ### Allocating a physical register -/

/-- The register that `AllocPReg` returns is free and admissible, and only its former owner has
moved. -/
structure AllocSpec (desire avoid : RegMask) (p : ℕ) (ra ra' : QRegAlloc) : Prop where
  desire : desire.test p = true
  avoid : avoid.test p = false
  lt : p < N_PREGS
  free : ra'.p2v p = none
  nVregs : ra'.nVregs = ra.nVregs
  p2v : ∀ q, q ≠ p → ra'.p2v q = ra.p2v q
  other : ∀ w, ¬ ((ra.vregs w).loc = .REG ∧ (ra.vregs w).p = p) → ra'.vregs w = ra.vregs w
  victim : ∀ w, (ra.vregs w).loc = .REG → (ra.vregs w).p = p → (ra'.vregs w).loc = .MEM

variable (env W pin) in
lemma step_allocPReg {desire avoid : RegMask} {p : ℕ} (hi : Inv vi N ra)
    (h : ra.allocPReg desire avoid = some (p, ra')) :
    Step env vi N W pin ra ra' ∧ AllocSpec desire avoid p ra ra' := by
  simp only [allocPReg] at h
  split at h
  · rename_i q hq
    have hmem := List.mem_of_find?_eq_some hq
    have hpred := List.find?_some hq
    cases h
    simp only [List.mem_range] at hmem
    rw [Bool.and_eq_true, Option.isNone_iff_eq_none, RegMask.test_inter_compl _ _
      (by simp only [N_PREGS, GPR_NUM] at hmem; omega)] at hpred
    simp only [Bool.and_eq_true, Bool.not_eq_true'] at hpred
    refine ⟨.refl ra, hpred.2.1, hpred.2.2, hmem, hpred.1, rfl, fun _ _ => rfl, fun _ _ => rfl,
      fun w hl hw => ?_⟩
    have := hi.owns hl
    rw [hw, hpred.1] at this
    cases this
  · split at h
    · rename_i q hq
      have hmem := List.mem_of_find?_eq_some hq
      have hpred := List.find?_some hq
      obtain ⟨ra1, h1, h2⟩ := Option.bind_eq_some_iff.mp h
      cases h2
      simp only [List.mem_range] at hmem
      rw [RegMask.test_inter_compl _ _ (by simp only [N_PREGS, GPR_NUM] at hmem; omega)] at hpred
      simp only [Bool.and_eq_true, Bool.not_eq_true'] at hpred
      obtain ⟨hstep, hn, hp2v, hother, hvictim⟩ :=
        step_spillPreg env W pin hi h1
      exact ⟨hstep, hpred.1, hpred.2, hmem, by simp [hp2v], hn, fun r hr => by simp [hp2v, hr],
        hother, hvictim⟩
    · cases h

variable (env W pin) in
/-- Loading a register from its slot. -/
lemma step_load {v p : ℕ} (hi : Inv vi N ra) (hl : (ra.vregs v).loc = .MEM)
    (hfree : ra.p2v p = none) (hp : p < N_PREGS) (hfix : GPR_FIXED.test p = false)
    (hN : (ra.vregs v).isGlobal = true → N v) (hpin : ¬ pin p) :
    Step env vi N W pin ra
      (((ra.setTrack v { ra.vregs v with p := p, loc := .REG, spillSynced := true }).setP2v p
        (some v)).emit (.mkMov (.pgpr (ra.vregs v).type p) (slotOf (ra.vregs v)))) := by
  intro _
  have hinv : Inv vi N ((ra.setTrack v
      { ra.vregs v with p := p, loc := .REG, spillSynced := true }).setP2v p (some v)) :=
    hi.assign (hi.lt_of_loc (by simp [hl])) hfree hp hfix hN rfl rfl (fun w hw => by simp [hw])
      (b := true) (by simp) (fun q => by simp [hl])
  refine ⟨hinv.emit _, _, rfl, fun s s' hm => ⟨_, Quiet.mov rfl rfl s', ?_, fun q hq => ?_⟩⟩
  · have hval : readOpr vi s' (slotOf (ra.vregs v)) = ra.valueOf vi s v ∨
        ((ra.vregs v).isGlobal = false ∧ ¬ W v) := by
      by_cases hg : (ra.vregs v).isGlobal = true
      · obtain ⟨g, hgi⟩ := hi.getGlobalInfo_isSome hg
        obtain ⟨hoffs, -⟩ := hi.home v g hgi
        left
        simp only [slotOf, hg, readOpr, valueOf, hgi, hoffs]
        refine ByteMem.load_congr fun x hx hx' => hm.cpu x fun w hw => ?_
        have hwv : w ≠ v := by rintro rfl; simp [DirtyAt, hl] at hw
        rcases hi.homes_apart hwv hw.1 hg with h | h <;> have := hw.2.2.2 <;> omega
      · simp only [Bool.not_eq_true] at hg
        by_cases hW : W v
        · left
          simpa only [slotOf, hg, readOpr] using (hm.slot v hg hW (Or.inl hl)).2
        · exact Or.inr ⟨hg, hW⟩
    refine ⟨hm.mem, fun x hx => hm.cpu x fun w hw => hx w ?_, fun w hw hg => ?_, fun w => ?_⟩
    · have hwv : w ≠ v := by rintro rfl; simp [DirtyAt, hl] at hw
      simpa [DirtyAt, hwv] using hw
    · by_cases hwv : w = v
      · subst hwv
        simp only [vregs_emit, vregs_setP2v, vregs_setTrack, if_true, writeOpr,
          Function.update_self, valueOf] at hg ⊢
        rw [ByteMem.lowBytes_setLow le_rfl]
        rcases hval with h | ⟨h1, h2⟩
        · rw [h, valueOf]
          cases hgi : vi.getGlobalInfo w <;> simp [readOpr, hgi, ByteMem.lowBytes_load]
        · simp [h1, h2] at hg
      · simp only [vregs_emit, vregs_setP2v, vregs_setTrack, hwv, if_false, valueOf] at hw hg ⊢
        have hne : (ra.vregs w).p ≠ p := by
          intro he
          have := hi.owns hw
          rw [he, hfree] at this
          cases this
        simpa [writeOpr, hne, valueOf] using hm.reg w hw hg
    · by_cases hwv : w = v
      · subst hwv
        intro hg hW _
        simp only [vregs_emit, vregs_setP2v, vregs_setTrack, if_true] at hg
        simpa [valueOf, writeOpr] using hm.slot w hg hW (Or.inl hl)
      · simpa [hwv, valueOf, writeOpr] using hm.slot w
  · have hne : q ≠ p := by rintro rfl; exact hpin hq
    simp [writeOpr, hne]

/-- What the allocator keeps while it brings the operands of one instruction into place: the
registers whose physical register is already taken by an operand stay where they are. -/
structure Keeps (avoid : RegMask) (ra ra' : QRegAlloc) : Prop where
  nVregs : ra'.nVregs = ra.nVregs
  reg : ∀ w, (ra.vregs w).loc = .REG → avoid.test (ra.vregs w).p = true →
    (ra'.vregs w).loc = .REG ∧ (ra'.vregs w).p = (ra.vregs w).p

namespace Keeps

lemma refl (avoid : RegMask) (ra : QRegAlloc) : Keeps avoid ra ra :=
  ⟨rfl, fun _ h _ => ⟨h, rfl⟩⟩

lemma trans {avoid : RegMask} (h1 : Keeps avoid ra ra') (h2 : Keeps avoid ra' ra'') :
    Keeps avoid ra ra'' := by
  refine ⟨h2.nVregs.trans h1.nVregs, fun w hl ha => ?_⟩
  obtain ⟨hl', hp'⟩ := h1.reg w hl ha
  obtain ⟨hl'', hp''⟩ := h2.reg w hl' (by rwa [hp'])
  exact ⟨hl'', hp''.trans hp'⟩

end Keeps

lemma AllocSpec.keeps {desire avoid : RegMask} {p : ℕ} (h : AllocSpec desire avoid p ra ra') :
    Keeps avoid ra ra' := by
  refine ⟨h.nVregs, fun w hl ha => ?_⟩
  have hne : ¬ ((ra.vregs w).loc = .REG ∧ (ra.vregs w).p = p) := by
    rintro ⟨-, hp⟩
    rw [hp, h.avoid] at ha
    cases ha
  rw [h.other w hne]
  exact ⟨hl, rfl⟩

/-- The registers that the operands handled so far occupy include the fixed ones. -/
def AvoidsFixed (avoid : RegMask) : Prop := ∀ p, GPR_FIXED.test p = true → avoid.test p = true

lemma AvoidsFixed.not_fixed {avoid : RegMask} (h : AvoidsFixed avoid) {p : ℕ}
    (hp : avoid.test p = false) : GPR_FIXED.test p = false := by
  by_contra hf
  rw [Bool.not_eq_false] at hf
  rw [h p hf] at hp
  cases hp

variable (env W) in
lemma step_fill {v : ℕ} {desire avoid : RegMask} (hi : Inv vi N ra) (ha : AvoidsFixed avoid)
    (hN : (ra.vregs v).isGlobal = true → N v) (h : ra.fill v desire avoid = some ra') :
    Step env vi N W (fun p => avoid.test p = true) ra ra' ∧ Keeps avoid ra ra' ∧
      (ra'.vregs v).loc = .REG := by
  simp only [fill] at h
  split at h
  · rename_i hl
    obtain ⟨⟨p, ra1⟩, h1, h2⟩ := Option.bind_eq_some_iff.mp h
    obtain ⟨hstep, hspec⟩ := step_allocPReg env W (fun p => avoid.test p = true) hi h1
    obtain ⟨hi1, -⟩ := hstep hi
    have hv : ra1.vregs v = ra.vregs v := hspec.other v (by simp [hl])
    simp only [emitFill] at h2
    split at h2
    · cases h2
    · cases h2
      have hload := step_load env W (fun p => avoid.test p = true) hi1
        (v := v) (by rw [hv, hl]) hspec.free hspec.lt (ha.not_fixed hspec.avoid) (by rwa [hv])
        (by simp [hspec.avoid])
      refine ⟨hstep.trans ?_, ?_, by simp⟩
      · simpa [slotOf] using hload
      · refine hspec.keeps.trans ⟨rfl, fun w hw _ => ?_⟩
        have hwv : w ≠ v := by
          rintro rfl
          rw [hv, hl] at hw
          cases hw
        simp [hwv, hw]
  · rename_i hl
    cases h
    exact ⟨.refl ra, .refl avoid ra, hl⟩
  · cases h

end QRegAlloc

end Rv32jit.Qcg
