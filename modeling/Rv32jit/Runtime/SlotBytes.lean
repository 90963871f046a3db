/-
# The bytes of a branch slot

`BranchSlot` of `jitabi.h`: three encodings that are written over each other, followed by the
guest address and the flags.  A slot is given by its bytes and by its address; what has been
patched into it is decoded and run.
-/
import Rv32jit.Lib.X86
import Rv32jit.Runtime.TCache

namespace Rv32jit.Runtime

/-! ### Layout -/

/-- `sizeof(Call64Abs)`. -/
def sizeofCall64Abs : ℕ := 12

/-- `sizeof(Jump64Abs)`. -/
def sizeofJump64Abs : ℕ := 12

/-- `sizeof(Jump32Rel)`. -/
def sizeofJump32Rel : ℕ := 5

/-- `sizeof(CallTab)`. -/
def sizeofCallTab : ℕ := 7

/-- `sizeof(code)`: a union has the size of its largest member. -/
def sizeofCode : ℕ :=
  max (max sizeofCall64Abs sizeofJump64Abs) (max sizeofJump32Rel sizeofCallTab)

namespace SlotBytes

/-- The field `gip`. -/
def gip (m : ByteMem) : BitVec 32 := m.load sizeofCode 4

/-- The byte that holds `flags`. -/
def flags (m : ByteMem) : BitVec 8 := m (sizeofCode + 4)

/-- `CreatePatch<Call64Abs>`, with its `imm`. -/
def call64Abs (m : ByteMem) (imm : BitVec 64) : ByteMem :=
  ((m.store 0 2 (0xB848 : BitVec 16)).store 2 8 imm).store 10 2 (0xD0FF : BitVec 16)

/-- `CreatePatch<Jump64Abs>`. -/
def jump64Abs (m : ByteMem) (imm : BitVec 64) : ByteMem :=
  ((m.store 0 2 (0xB848 : BitVec 16)).store 2 8 imm).store 10 2 (0xE0FF : BitVec 16)

/-- `CreatePatch<Jump32Rel>`. -/
def jump32Rel (m : ByteMem) (imm : BitVec 32) : ByteMem :=
  (m.store 0 1 (0xE9 : BitVec 8)).store 1 4 imm

/-- `BranchSlot::LinkLazyJIT`, with the address of the stub. -/
def linkLazyJIT (stub : BitVec 64) (m : ByteMem) : ByteMem := call64Abs m stub

/-- `BranchSlot::Link` on the slot at an address. -/
def link (slot : BitVec 64) (m : ByteMem) (tgt : BitVec 64) : ByteMem :=
  let rel := tgt - (slot + .ofNat 64 sizeofJump32Rel)
  if (rel.setWidth 32).signExtend 64 = rel then jump32Rel m (rel.setWidth 32)
  else jump64Abs m tgt

/-- `BranchSlot::FromCallPtrRetaddr`. -/
def fromCallPtrRetaddr (ra : BitVec 64) : BitVec 64 := ra - .ofNat 64 sizeofCall64Abs

/-- What is patched into a slot. -/
inductive Patch
  | link (tgt : BitVec 64)
  | linkLazyJIT

/-- One patch of a branch slot. -/
def patch (stub slot : BitVec 64) (m : ByteMem) : Patch → ByteMem
  | .link tgt => link slot m tgt
  | .linkLazyJIT => linkLazyJIT stub m

/-- The patches one after another. -/
def patches (stub slot : BitVec 64) (m : ByteMem) (ps : List Patch) : ByteMem :=
  ps.foldl (patch stub slot) m

/-! ### What the bytes mean -/

variable (stub slot : BitVec 64)

/-- The displacement from the end of the relative form. -/
def displacement (tgt : BitVec 64) : ℤ := (tgt - (slot + .ofNat 64 sizeofJump32Rel)).toInt

/-- Run from its start, the slot passes control on to `tgt` and pushes nothing. -/
def Jumps (m : ByteMem) (tgt : BitVec 64) : Prop :=
  ∀ s : X86.State, s.rip = slot →
    ∃ s', (X86.step m slot s = some s' ∨
        (X86.step m slot s).bind (X86.step m slot) = some s') ∧
      s'.rip = tgt ∧ s'.pushed = s.pushed

/-- Run from its start, the slot calls `tgt`, with a return address that leads back to the slot. -/
def Calls (m : ByteMem) (tgt : BitVec 64) : Prop :=
  ∀ s : X86.State, s.rip = slot →
    ∃ s' ra, (X86.step m slot s).bind (X86.step m slot) = some s' ∧
      s'.rip = tgt ∧ s'.pushed = ra :: s.pushed ∧ fromCallPtrRetaddr ra = slot

/-- The slot means what has been patched into it: the relative jump where the displacement fits in
32 signed bits and the absolute one elsewhere, or the call of the stub. -/
def Means (m : ByteMem) : Patch → Prop
  | .link tgt => Jumps slot m tgt ∧
      if -2 ^ 31 ≤ displacement slot tgt ∧ displacement slot tgt < 2 ^ 31 then
        ∃ rel, X86.decode m 0 = some (.jmpRel rel, sizeofJump32Rel)
      else X86.decode m 0 = some (.movRax tgt, 10) ∧ X86.decode m 10 = some (.jmpRax, 2)
  | .linkLazyJIT => Calls slot m stub

variable {stub slot} {m : ByteMem} {imm tgt : BitVec 64}

/-! ### The three forms -/

/-- The fields of an absolute form. -/
lemma load_absolute (m : ByteMem) (imm : BitVec 64) (op : BitVec 16) :
    let m' := ((m.store 0 2 (0xB848 : BitVec 16)).store 2 8 imm).store 10 2 op
    m'.load 0 2 = (0xB848 : BitVec 16) ∧ m'.load 2 8 = imm ∧ m'.load 10 2 = op := by
  intro m'
  refine ⟨?_, ?_, ?_⟩
  · rw [ByteMem.load_store_disjoint _ _ (by decide), ByteMem.load_store_disjoint _ _ (by decide)]
    exact (ByteMem.load_store _ _ _ _).trans (ByteMem.lowBytes_of_le (by decide) _)
  · rw [ByteMem.load_store_disjoint _ _ (by decide)]
    exact (ByteMem.load_store _ _ _ _).trans (ByteMem.lowBytes_of_le (by decide) _)
  · exact (ByteMem.load_store _ _ _ _).trans (ByteMem.lowBytes_of_le (by decide) _)

/-- An absolute form begins with the load of its address. -/
lemma decode_absolute (m : ByteMem) (imm : BitVec 64) (op : BitVec 16) :
    X86.decode (((m.store 0 2 (0xB848 : BitVec 16)).store 2 8 imm).store 10 2 op) 0 =
      some (.movRax imm, 10) := by
  obtain ⟨h0, h2, -⟩ := load_absolute m imm op
  have hbyte : (((m.store 0 2 (0xB848 : BitVec 16)).store 2 8 imm).store 10 2 op) 0 = 0x48 := by
    rw [ByteMem.store_apply_of_notMem _ (Or.inl (by decide)),
      ByteMem.store_apply_of_notMem _ (Or.inl (by decide))]
    rfl
  rw [X86.decode, X86.load_byte, hbyte, if_neg (by decide), h0, if_pos rfl, h2]

/-- It ends with the call or the jump. -/
lemma decode_absolute_end (m : ByteMem) (imm : BitVec 64) {op : BitVec 16}
    (hop : op = 0xD0FF ∨ op = 0xE0FF) :
    X86.decode (((m.store 0 2 (0xB848 : BitVec 16)).store 2 8 imm).store 10 2 op) 10 =
      some (if op = 0xD0FF then .callRax else .jmpRax, 2) := by
  obtain ⟨-, -, h10⟩ := load_absolute m imm op
  have hbyte : (((m.store 0 2 (0xB848 : BitVec 16)).store 2 8 imm).store 10 2 op) 10 =
      op.extractLsb' 0 8 := rfl
  rw [X86.decode, X86.load_byte, hbyte, h10]
  rcases hop with rfl | rfl <;> rfl

/-- The relative form is one instruction. -/
lemma decode_jump32Rel (m : ByteMem) (imm : BitVec 32) :
    X86.decode (jump32Rel m imm) 0 = some (.jmpRel imm, sizeofJump32Rel) := by
  have hbyte : jump32Rel m imm 0 = 0xE9 := by
    rw [jump32Rel, ByteMem.store_apply_of_notMem _ (Or.inl (by decide))]
    rfl
  have himm : (jump32Rel m imm).load 1 4 = imm :=
    (ByteMem.load_store _ _ _ _).trans (ByteMem.lowBytes_of_le (by decide) _)
  rw [X86.decode, X86.load_byte, hbyte, if_pos rfl, himm]
  rfl

/-- A run of an absolute form: `rax` is loaded, and its address is called or jumped to. -/
lemma run_absolute (slot : BitVec 64) {imm : BitVec 64} {i : X86.Insn}
    (h0 : X86.decode m 0 = some (.movRax imm, 10)) (h10 : X86.decode m 10 = some (i, 2))
    {s : X86.State} (hs : s.rip = slot) :
    (X86.step m slot s).bind (X86.step m slot) =
      some (X86.exec { s with rip := slot + 10, rax := imm } 2 i) := by
  rw [X86.step_of_decode h0 (by decide) (by rw [hs]; exact (BitVec.add_zero slot).symm),
    Option.bind_some, X86.step_of_decode h10 (by decide) (by rw [X86.exec, hs])]
  rw [X86.exec, hs]
  rfl

lemma means_linkLazyJIT (stub slot : BitVec 64) (m : ByteMem) :
    Means stub slot (linkLazyJIT stub m) .linkLazyJIT := by
  intro s hs
  refine ⟨_, _, run_absolute slot (decode_absolute m stub 0xD0FF)
    (decode_absolute_end m stub (Or.inl rfl)) hs, rfl, rfl, ?_⟩
  show slot + 10 + .ofNat 64 2 - .ofNat 64 sizeofCall64Abs = slot
  rw [BitVec.add_assoc]
  exact BitVec.add_sub_cancel slot 12

lemma means_link (stub slot : BitVec 64) (m : ByteMem) (tgt : BitVec 64) :
    Means stub slot (link slot m tgt) (.link tgt) := by
  have hfits := X86.signExtend_setWidth_iff (tgt - (slot + .ofNat 64 sizeofJump32Rel))
  rw [Means, link]
  split
  · rename_i hrel
    have hd := decode_jump32Rel m ((tgt - (slot + .ofNat 64 sizeofJump32Rel)).setWidth 32)
    refine ⟨fun s hs => ?_, ?_⟩
    · refine ⟨_, Or.inl (X86.step_of_decode hd (by decide)
        (by rw [hs]; exact (BitVec.add_zero slot).symm)), ?_, rfl⟩
      rw [X86.exec, hs, hrel, BitVec.add_comm]
      exact BitVec.sub_add_cancel _ _
    · rw [displacement, if_pos (hfits.mp hrel)]
      exact ⟨_, hd⟩
  · rename_i hrel
    have h0 := decode_absolute m tgt 0xE0FF
    have h10 := decode_absolute_end m tgt (show (0xE0FF : BitVec 16) = _ ∨ _ from Or.inr rfl)
    refine ⟨fun s hs => ⟨_, Or.inr (run_absolute slot h0 h10 hs), rfl, rfl⟩, ?_⟩
    rw [displacement, if_neg fun h => hrel (hfits.mpr h)]
    exact ⟨h0, h10⟩

/-! ### Sequences of patches -/

/-- Every form fits in the code field. -/
lemma patch_apply (stub slot : BitVec 64) (m : ByteMem) (p : Patch) {x : ℕ}
    (hx : sizeofCode ≤ x) : patch stub slot m p x = m x := by
  have hx : 12 ≤ x := hx
  have habs : ∀ (imm : BitVec 64) (op : BitVec 16),
      (((m.store 0 2 (0xB848 : BitVec 16)).store 2 8 imm).store 10 2 op) x = m x := by
    intro imm op
    rw [ByteMem.store_apply_of_notMem _ (Or.inr (by omega)),
      ByteMem.store_apply_of_notMem _ (Or.inr (by omega)),
      ByteMem.store_apply_of_notMem _ (Or.inr (by omega))]
  cases p with
  | linkLazyJIT => exact habs stub 0xD0FF
  | link tgt =>
    rw [patch, link]
    split
    · rw [jump32Rel, ByteMem.store_apply_of_notMem _ (Or.inr (by omega)),
        ByteMem.store_apply_of_notMem _ (Or.inr (by omega))]
    · exact habs tgt 0xE0FF

lemma patches_apply (stub slot : BitVec 64) (m : ByteMem) (ps : List Patch) {x : ℕ}
    (hx : sizeofCode ≤ x) : patches stub slot m ps x = m x := by
  induction ps generalizing m with
  | nil => rfl
  | cons p ps ih => exact (ih (patch stub slot m p)).trans (patch_apply stub slot m p hx)

lemma means_patch (stub slot : BitVec 64) (m : ByteMem) (p : Patch) :
    Means stub slot (patch stub slot m p) p := by
  cases p with
  | link tgt => exact means_link stub slot m tgt
  | linkLazyJIT => exact means_linkLazyJIT stub slot m

/-- After any sequence of patches the slot means what has been patched last, and its guest address,
its flags and whatever lies behind them are as they were. -/
theorem patches_mean (stub slot : BitVec 64) (m : ByteMem) (ps : List Patch) (p : Patch) :
    Means stub slot (patches stub slot m (ps ++ [p])) p ∧
      gip (patches stub slot m (ps ++ [p])) = gip m ∧
      flags (patches stub slot m (ps ++ [p])) = flags m ∧
      ∀ x, sizeofCode ≤ x → patches stub slot m (ps ++ [p]) x = m x := by
  have hsame : ∀ x, sizeofCode ≤ x → patches stub slot m (ps ++ [p]) x = m x :=
    fun x hx => patches_apply stub slot m _ hx
  refine ⟨?_, ByteMem.load_congr fun x hx _ => hsame x hx, hsame _ (Nat.le_add_right _ _), hsame⟩
  rw [patches, List.foldl_append, List.foldl_cons, List.foldl_nil]
  exact means_patch stub slot _ p

/-! ### The slots of the cache -/

/-- The bytes of a slot at an address of the code are those of a slot of the cache. -/
structure SlotAt (stub slot : BitVec 64) (m : ByteMem) (s : BranchSlot) : Prop where
  code : Means stub slot m (match s.code with
    | .lazyLink => .linkLazyJIT
    | .jump ptr => .link (.ofNat 64 ptr))
  gip : gip m = s.gip

/-- What `Slots.link` does to a slot is done to its bytes. -/
theorem slotAt_link {s : BranchSlot} (h : SlotAt stub slot m s) (ptr : ℕ) :
    SlotAt stub slot (link slot m (.ofNat 64 ptr)) { s with code := .jump ptr } := by
  refine ⟨means_link stub slot m _, ?_⟩
  rw [← h.gip]
  exact ByteMem.load_congr fun x hx _ => patch_apply stub slot m (.link (.ofNat 64 ptr)) hx

/-- What `Slots.linkLazyJIT` does to a slot is done to its bytes. -/
theorem slotAt_linkLazyJIT {s : BranchSlot} (h : SlotAt stub slot m s) :
    SlotAt stub slot (linkLazyJIT stub m) { s with code := .lazyLink } := by
  refine ⟨means_linkLazyJIT stub slot m, ?_⟩
  rw [← h.gip]
  exact ByteMem.load_congr fun x hx _ => patch_apply stub slot m .linkLazyJIT hx

end SlotBytes

end Rv32jit.Runtime
