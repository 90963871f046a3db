/-
# The stack pointer in a piece of code

Code with jumps is entered with the stack pointer at some place and moves it by pushes and pops
only.  How far it is below that place is known at every instruction if all labels have the same
distance.  `Checks` follows the distance through the code; code that passes keeps to its frame on
every path.
-/
import Rv32jit.Lib.X86Asm

namespace X86.Asm

/-! ### Frames -/

/-- How a piece of code may use the stack. -/
structure StackFrame (Obj : Type) where
  stack : Obj
  /-- A register that points to `obj` all the time. -/
  fixed : ℕ
  obj : Obj
  /-- The distance of the stack pointer from its place at the entry, at every label. -/
  depth : ℕ
  /-- The greatest distance, at which calls are made. -/
  deep : ℕ
  /-- The part of the stack that operands may lie in, from the place at the entry on. -/
  lo : ℕ
  hi : ℕ
  fixed_ne : fixed ≠ SP
  obj_ne : obj ≠ stack
  depth_le : depth ≤ deep

namespace StackFrame

variable {Obj Stub Lbl Slot : Type} (F : StackFrame Obj)

/-- At distance `d`, an operand of `n` bytes behind the stack pointer lies in the frame's part. -/
def Within (d n : ℕ) : Mem → Prop
  | .base r disp => r = SP → d + F.lo ≤ disp ∧ disp + n ≤ d + F.hi
  | _ => True

/-- At distance `d` the operand can be read. -/
def Reads (d : ℕ) : Opnd Obj → Prop
  | .mem sz m => F.Within d sz.bytes m
  | _ => True

/-- At distance `d` the operand can be written: it is a register that does not matter, or in memory
that belongs to no other frame. -/
def Writes (d : ℕ) : Opnd Obj → Prop
  | .reg _ r => r ≠ SP ∧ r ≠ F.fixed
  | .mem sz m => F.Within d sz.bytes m ∧ match m with
    | .base r _ => r = SP ∨ r = F.fixed
    | .sum _ _ _ => False
    | _ => True
  | _ => True

/-- At distance `d` the instruction keeps to the frame. -/
def Fits (d : ℕ) : Insn Obj Stub Lbl → Prop
  | .mov t s | .movzx t s | .movsx t s | .alu _ t s | .shift _ t s => F.Writes d t ∧ F.Reads d s
  | .cmp t s => F.Reads d t ∧ F.Reads d s
  | .setcc _ t => F.Writes d t ∧ ∀ sz, t.size = some sz → sz = .b
  | .lea t _ => F.Writes d t
  | .push _ => d + 8 ≤ F.deep
  | .pop r => 8 ≤ d ∧ r ≠ SP ∧ r ≠ F.fixed
  | .jmp _ | .jcc _ _ => d = F.depth
  | .jmpInd t => d = 0 ∧ F.Reads d t
  | .call _ => d = F.deep

/-- The operands of an instruction. -/
def opnds : Insn Obj Stub Lbl → List (Opnd Obj)
  | .mov t s | .movzx t s | .movsx t s | .alu _ t s | .shift _ t s | .cmp t s => [t, s]
  | .setcc _ t | .lea t _ | .jmpInd t => [t]
  | .push _ | .pop _ | .jmp _ | .jcc _ _ | .call _ => []

/-- The distance behind an instruction, if control goes on there. -/
def after (d : ℕ) : Insn Obj Stub Lbl → Option ℕ
  | .push _ => some (d + 8)
  | .pop _ => some (d - 8)
  | .jmp _ | .jmpInd _ => none
  | _ => some d

/-- The code keeps to the frame, with the distances in front of it and behind it; there is none
where control does not come. -/
def Checks : Option ℕ → List (Item Obj Stub Lbl Slot) → Option ℕ → Prop
  | d, [], d' => d' = d
  | d, .label _ :: rest, d' => (∀ n, d = some n → n = F.depth) ∧ Checks (some F.depth) rest d'
  | none, _ :: rest, d' => Checks none rest d'
  | some n, .insn i :: rest, d' => F.Fits n i ∧ Checks (after n i) rest d'
  | some n, .data _ :: rest, d' => n = 0 ∧ Checks none rest d'

variable {F} {d d' d'' : Option ℕ} {code code' : List (Item Obj Stub Lbl Slot)}

lemma Writes.reads {n : ℕ} {t : Opnd Obj} (h : F.Writes n t) : F.Reads n t := by
  cases t with
  | mem sz m => exact h.1
  | reg _ _ | imm _ | obj _ => trivial

/-- All operands of an instruction that fits can be read. -/
lemma Fits.reads {n : ℕ} {i : Insn Obj Stub Lbl} {t : Opnd Obj} (h : F.Fits n i)
    (ht : t ∈ opnds i) : F.Reads n t := by
  cases i with
  | mov a b | movzx a b | movsx a b | alu _ a b | shift _ a b =>
    rcases List.mem_pair.mp ht with rfl | rfl
    · exact h.1.reads
    · exact h.2
  | cmp a b =>
    rcases List.mem_pair.mp ht with rfl | rfl
    · exact h.1
    · exact h.2
  | setcc _ a =>
    rw [List.mem_singleton.mp ht]
    exact h.1.reads
  | lea a m =>
    rw [List.mem_singleton.mp ht]
    exact Writes.reads h
  | jmpInd a =>
    rw [List.mem_singleton.mp ht]
    exact h.2
  | push _ | pop _ | jmp _ | jcc _ _ | call _ => cases ht

lemma Checks.append (hc : F.Checks d code d') (hc' : F.Checks d' code' d'') :
    F.Checks d (code ++ code') d'' := by
  induction code generalizing d with
  | nil =>
    obtain rfl : d' = d := hc
    exact hc'
  | cons item code ih =>
    rcases item with l | i | s
    · exact ⟨hc.1, ih hc.2⟩
    · rcases d with _ | n
      · exact ih (d := none) hc
      · exact ⟨hc.1, ih hc.2⟩
    · rcases d with _ | n
      · exact ih (d := none) hc
      · exact ⟨hc.1, ih hc.2⟩

lemma Checks.split (hc : F.Checks d (code ++ code') d'') :
    ∃ m, F.Checks d code m ∧ F.Checks m code' d'' := by
  induction code generalizing d with
  | nil => exact ⟨d, rfl, hc⟩
  | cons item code ih =>
    rcases item with l | i | s
    · obtain ⟨m, hm, hm'⟩ := ih hc.2
      exact ⟨m, ⟨hc.1, hm⟩, hm'⟩
    · rcases d with _ | n
      · exact ih (d := none) hc
      · obtain ⟨m, hm, hm'⟩ := ih hc.2
        exact ⟨m, ⟨hc.1, hm⟩, hm'⟩
    · rcases d with _ | n
      · exact ih (d := none) hc
      · obtain ⟨m, hm, hm'⟩ := ih hc.2
        exact ⟨m, ⟨hc.1, hm⟩, hm'⟩

/-- Instructions that do not move the stack pointer. -/
lemma checks_insns {n : ℕ} {is : List (Insn Obj Stub Lbl)}
    (hi : ∀ i ∈ is, F.Fits n i ∧ after n i = some n) :
    F.Checks (some n) (is.map .insn : List (Item Obj Stub Lbl Slot)) (some n) := by
  induction is with
  | nil => exact rfl
  | cons i is ih =>
    obtain ⟨hfits, hafter⟩ := hi i (.head _)
    refine ⟨hfits, ?_⟩
    rw [hafter]
    exact ih fun j hj => hi j (.tail _ hj)

/-- Code without labels behind a place that control does not come to. -/
lemma checks_none (hl : labels code = []) : F.Checks none code none := by
  induction code with
  | nil => exact rfl
  | cons item code ih =>
    rcases item with l | i | s
    · cases hl
    · exact ih hl
    · exact ih hl

variable (F) in
/-- Code that can stand between labels: control comes to it with the distance of a label, or not at
all, and so it leaves it. -/
def Keeps (code : List (Item Obj Stub Lbl Slot)) : Prop :=
  ∀ d, (∀ n, d = some n → n = F.depth) → ∃ d', (∀ n, d' = some n → n = F.depth) ∧ F.Checks d code d'

namespace Keeps

lemma nil : F.Keeps ([] : List (Item Obj Stub Lbl Slot)) := fun d hd => ⟨d, hd, rfl⟩

lemma append (hc : F.Keeps code) (hc' : F.Keeps code') : F.Keeps (code ++ code') := by
  intro d hd
  obtain ⟨d', hd', hcode⟩ := hc d hd
  obtain ⟨d'', hd'', hcode'⟩ := hc' d' hd'
  exact ⟨d'', hd'', hcode.append hcode'⟩

lemma label {l : Lbl} (hc : F.Keeps code) : F.Keeps (.label l :: code) := by
  intro d hd
  have hdepth : ∀ n, some F.depth = some n → n = F.depth := by
    rintro n ⟨⟩
    rfl
  obtain ⟨d', hd', hcode⟩ := hc _ hdepth
  exact ⟨d', hd', hd, hcode⟩

/-- Code without labels needs to be checked only where control comes to it. -/
lemma of_checks (hl : labels code = []) (hd' : ∀ n, d' = some n → n = F.depth)
    (hc : F.Checks (some F.depth) code d') : F.Keeps code := by
  intro d hd
  rcases d with _ | n
  · refine ⟨none, ?_, checks_none hl⟩
    rintro n ⟨⟩
  · obtain rfl := hd n rfl
    exact ⟨d', hd', hc⟩

lemma insns {is : List (Insn Obj Stub Lbl)}
    (hi : ∀ i ∈ is, F.Fits F.depth i ∧ after F.depth i = some F.depth) :
    F.Keeps (is.map .insn : List (Item Obj Stub Lbl Slot)) := by
  refine of_checks (labels_insns is) ?_ (checks_insns hi)
  rintro n ⟨⟩
  rfl

end Keeps

/-! ### States -/

section
variable (F) (h : Host Obj Stub)

/-- The state is at distance `d` in a frame whose code was entered with the stack pointer at `e`;
above the frame the stack holds what is given. -/
structure At (e : ℕ) (above : ByteMem) (d : ℕ) (s : State Obj) : Prop where
  sp : s.regs SP = .ptr F.stack (e - d)
  deep : d ≤ F.deep
  fixed : s.regs F.fixed = .ptr F.obj 0
  above : ∀ a, e + F.hi ≤ a → s.mem (some F.stack) a = above a

/-- What a call leaves alone. -/
structure Callee (top : ℕ) (s s' : State Obj) : Prop where
  sp : s'.regs SP = s.regs SP
  fixed : s'.regs F.fixed = s.regs F.fixed
  stack : ∀ a, top ≤ a → s'.mem (some F.stack) a = s.mem (some F.stack) a

/-- The stubs that return leave the caller's frame alone. -/
def Convention : Prop :=
  ∀ stub s s' top, s.regs SP = .ptr F.stack top → h.call stub s = some (s', false) →
    F.Callee top s s'

end

namespace At

variable {h : Host Obj Stub} {e n : ℕ} {above : ByteMem} {s s' : State Obj}

lemma flags (hs : F.At e above n s) (f : Flags) : F.At e above n { s with flags := f } :=
  ⟨hs.sp, hs.deep, hs.fixed, hs.above⟩

lemma setReg {r : ℕ} {v : Val Obj} (hs : F.At e above n s) (hr : r ≠ SP ∧ r ≠ F.fixed) :
    F.At e above n (s.setReg r v) := by
  refine ⟨?_, hs.deep, ?_, hs.above⟩
  · rw [State.setReg_of_ne hr.1.symm]
    exact hs.sp
  · rw [State.setReg_of_ne hr.2.symm]
    exact hs.fixed

lemma call {top : ℕ} (hs : F.At e above n s) (htop : top ≤ e) (hc : F.Callee top s s') :
    F.At e above n s' :=
  ⟨hc.sp.trans hs.sp, hs.deep, hc.fixed.trans hs.fixed, fun a ha =>
    (hc.stack a (by omega)).trans (hs.above a ha)⟩

variable [DecidableEq Obj]

/-- A store to an operand in memory. -/
lemma store {sz : Size} {m : Mem} {v : BitVec sz.bits} (he : F.deep ≤ e)
    (hs : F.At e above n s) (hw : F.Writes n (.mem sz m)) :
    F.At e above n (s.setMem (s.resolve h m).1
      ((s.mem (s.resolve h m).1).store (s.resolve h m).2 sz.bytes v)) := by
  refine ⟨hs.sp, hs.deep, hs.fixed, fun a ha => ?_⟩
  have hother : (s.resolve h m).1 ≠ some F.stack → (s.setMem (s.resolve h m).1
      ((s.mem (s.resolve h m).1).store (s.resolve h m).2 sz.bytes v)).mem (some F.stack) a =
        above a := by
    intro hne
    rw [State.setMem_of_ne hne.symm]
    exact hs.above a ha
  rcases m with ⟨r, disp⟩ | r | addr | ⟨r, x, disp⟩ | ⟨x, sh⟩
  · by_cases hr : r = SP
    · subst hr
      -- the operand ends in front of the bytes that are to be kept
      have hend := (hw.1 rfl).2
      have hd := hs.deep
      simp only [State.resolve, hs.sp, State.setMem_self]
      rw [ByteMem.store_apply_of_notMem _ (Or.inr (by omega))]
      exact hs.above a ha
    · obtain rfl := hw.2.resolve_left hr
      refine hother ?_
      simp only [State.resolve, hs.fixed]
      exact fun hobj => F.obj_ne (Option.some.inj hobj)
  · exact hother (Option.some_ne_none _).symm
  · exact hother (Option.some_ne_none _).symm
  · exact hw.2.elim
  · exact hother (Option.some_ne_none _).symm

lemma write {sz : Size} {t : Opnd Obj} {v : BitVec sz.bits} (he : F.deep ≤ e)
    (hs : F.At e above n s) (hsz : ∀ sz', t.size = some sz' → sz' = sz) (hw : F.Writes n t) :
    F.At e above n (s.write h sz t v) := by
  cases t with
  | reg sz' r =>
    cases sz <;> exact hs.setReg hw
  | mem sz' m =>
    obtain rfl := hsz sz' rfl
    exact hs.store he hw
  | imm v => exact hs
  | obj o => exact hs

lemma writeVal {t : Opnd Obj} {v : Val Obj} (he : F.deep ≤ e) (hs : F.At e above n s)
    (hw : F.Writes n t) : F.At e above n (s.writeVal h t v) := by
  have hsize : ∀ sz', t.size = some sz' → sz' = t.size.getD .q := by
    rintro sz' hsz'
    rw [hsz', Option.getD_some]
  rcases t with ⟨sz, r⟩ | ⟨sz, m⟩ | v' | o
  · cases sz with
    | q => exact hs.setReg hw
    | b | w | d => exact hs.write (h := h) he hsize hw
  · exact hs.write he hsize hw
  · exact hs
  · exact hs

lemma push {r : ℕ} (he : F.deep ≤ e) (hs : F.At e above n s) (hn : n + 8 ≤ F.deep) :
    ∃ s', (Insn.push r : Insn Obj Stub Lbl).exec h s = .next s' ∧ F.At e above (n + 8) s' := by
  refine ⟨_, Insn.exec_push hs.sp, ⟨?_, hn, ?_, fun a ha => ?_⟩⟩
  · rw [State.setMem_regs, State.setReg_self, Nat.sub_sub]
  · rw [State.setMem_regs, State.setReg_of_ne F.fixed_ne]
    exact hs.fixed
  · rw [State.setMem_self, ByteMem.store_apply_of_notMem _ (Or.inr (by omega))]
    exact hs.above a ha

lemma pop {r : ℕ} (he : F.deep ≤ e) (hs : F.At e above n s) (hn : 8 ≤ n)
    (hr : r ≠ SP ∧ r ≠ F.fixed) :
    ∃ s', (Insn.pop r : Insn Obj Stub Lbl).exec h s = .next s' ∧ F.At e above (n - 8) s' := by
  have hd := hs.deep
  refine ⟨_, Insn.exec_pop hs.sp, At.setReg ⟨?_, by omega, ?_, hs.above⟩ hr⟩
  · rw [State.setReg_self, show e - n + 8 = e - (n - 8) by omega]
  · rw [State.setReg_of_ne F.fixed_ne]
    exact hs.fixed

end At

/-! ### Runs -/

section
variable [DecidableEq Obj] {h : Host Obj Stub} {e n : ℕ} {above : ByteMem} {s : State Obj}

variable (F) in
/-- What an instruction that fits leads to. -/
def Led (e : ℕ) (above : ByteMem) (n : ℕ) (i : Insn Obj Stub Lbl) : Res Obj Lbl → Prop
  | .next s' => ∃ n', after n i = some n' ∧ F.At e above n' s'
  | .jump _ s' => F.At e above F.depth s'
  | .leave _ s' => F.At e above 0 s'
  | .trap _ | .stuck => True

/-- One instruction that fits. -/
lemma exec_led {i : Insn Obj Stub Lbl} (hcall : F.Convention h) (he : F.deep ≤ e)
    (hs : F.At e above n s) (hi : F.Fits n i) : F.Led e above n i (i.exec h s) := by
  have hsize : ∀ (t : Opnd Obj) sz', t.size = some sz' → sz' = t.size.getD .q := by
    rintro t sz' hsz'
    rw [hsz', Option.getD_some]
  cases i with
  | mov t src => exact ⟨n, rfl, hs.writeVal he hi.1⟩
  | movzx t src | movsx t src => exact ⟨n, rfl, hs.write he (hsize t) hi.1⟩
  | alu op t src | shift op t src => exact ⟨n, rfl, (hs.write he (hsize t) hi.1).flags _⟩
  | cmp t src => exact ⟨n, rfl, hs.flags _⟩
  | setcc cc t => exact ⟨n, rfl, hs.write he hi.2 hi.1⟩
  | lea t m => exact ⟨n, rfl, hs.write he (hsize t) hi⟩
  | push r =>
    have hpush : ∃ s', (Insn.push r : Insn Obj Stub Lbl).exec h s = .next s' ∧
        F.At e above (n + 8) s' := hs.push he hi
    obtain ⟨s', hexec, hs'⟩ := hpush
    rw [hexec]
    exact ⟨_, rfl, hs'⟩
  | pop r =>
    have hpop : ∃ s', (Insn.pop r : Insn Obj Stub Lbl).exec h s = .next s' ∧
        F.At e above (n - 8) s' := hs.pop he hi.1 hi.2
    obtain ⟨s', hexec, hs'⟩ := hpop
    rw [hexec]
    exact ⟨_, rfl, hs'⟩
  | jmp l =>
    obtain rfl : n = F.depth := hi
    exact hs
  | jcc cc l =>
    obtain rfl : n = F.depth := hi
    rw [Insn.exec]
    split
    · exact hs
    · exact ⟨_, rfl, hs⟩
  | jmpInd t =>
    obtain rfl := hi.1
    exact hs
  | call stub =>
    rw [Insn.exec]
    split
    · rename_i s' hstub
      exact ⟨n, rfl, hs.call (Nat.sub_le _ _) (hcall stub s s' _ hs.sp hstub)⟩
    · trivial
    · trivial

variable [DecidableEq Lbl] {code : List (Item Obj Stub Lbl Slot)} {last : Option ℕ}
  {c c' : Cfg Obj Slot}

variable (F) in
/-- The machine keeps to the frame: in the code, where the rest of it is checked, and where it has
left the code. -/
def Kept (e : ℕ) (above : ByteMem) (code : List (Item Obj Stub Lbl Slot)) (last : Option ℕ) :
    Cfg Obj Slot → Prop
  | .at pc s => ∃ n, F.Checks (some n) (code.drop pc) last ∧ F.At e above n s
  | .left _ s | .data _ s => F.At e above 0 s
  | .trap _ => True

omit [DecidableEq Obj] in
/-- The rest of the code behind a label. -/
lemma Checks.labelPos {d : Option ℕ} {l : Lbl} {pos : ℕ} (hc : F.Checks d code last)
    (hl : labelPos code l = some pos) : F.Checks (some F.depth) (code.drop pos) last := by
  obtain ⟨hlt, hitem⟩ := (List.findIdx?_eq_some_iff_getElem.mp hl)
  rw [← List.take_append_drop pos code] at hc
  obtain ⟨m, -, hrest⟩ := hc.split
  rw [List.drop_eq_getElem_cons hlt] at hrest ⊢
  rcases hcode : code[pos] with l' | i | s
  · rw [hcode] at hrest
    refine ⟨?_, hrest.2⟩
    rintro n ⟨⟩
    rfl
  · rw [hcode] at hitem
    exact absurd hitem.1 Bool.false_ne_true
  · rw [hcode] at hitem
    exact absurd hitem.1 Bool.false_ne_true

omit [DecidableEq Obj] [DecidableEq Lbl] in
/-- The instruction that is next fits. -/
lemma Kept.fits {pc : ℕ} {s : State Obj} {i : Insn Obj Stub Lbl}
    (hc : F.Kept e above code last (.at pc s)) (hi : code[pc]? = some (.insn i)) :
    ∃ n, F.Fits n i ∧ F.At e above n s := by
  obtain ⟨n, hrest, hs⟩ := hc
  obtain ⟨hlt, hget⟩ := List.getElem?_eq_some_iff.mp hi
  rw [List.drop_eq_getElem_cons hlt, hget] at hrest
  exact ⟨n, hrest.1, hs⟩

/-- One step of the machine. -/
lemma Kept.step {d : Option ℕ} (hcode : F.Checks d code last) (hcall : F.Convention h)
    (he : F.deep ≤ e) (hc : F.Kept e above code last c) (hstep : step h code c = some c') :
    F.Kept e above code last c' := by
  rcases c with ⟨pc, s⟩ | ⟨t, s⟩ | ⟨k, s⟩ | s
  · obtain ⟨n, hrest, hs⟩ := hc
    rcases hitem : code[pc]? with _ | item
    · simp only [X86.Asm.step, hitem] at hstep
      cases hstep
    obtain ⟨hlt, hget⟩ := List.getElem?_eq_some_iff.mp hitem
    rw [List.drop_eq_getElem_cons hlt, hget] at hrest
    rcases item with l | i | k
    · simp only [X86.Asm.step, hitem] at hstep
      cases hstep
      obtain rfl := hrest.1 n rfl
      exact ⟨F.depth, hrest.2, hs⟩
    · simp only [X86.Asm.step, hitem] at hstep
      have hled := exec_led hcall he hs hrest.1
      rcases hexec : i.exec h s with s' | ⟨l, s'⟩ | ⟨t, s'⟩ | s' | _ <;> rw [hexec] at hled hstep
      · cases hstep
        obtain ⟨n', hafter, hs'⟩ := hled
        refine ⟨n', ?_, hs'⟩
        rw [← hafter]
        exact hrest.2
      · obtain ⟨pos, hpos, hstep⟩ := Option.map_eq_some_iff.mp hstep
        cases hstep
        exact ⟨F.depth, hcode.labelPos hpos, hled⟩
      · cases hstep
        exact hled
      · cases hstep
        trivial
      · cases hstep
    · simp only [X86.Asm.step, hitem] at hstep
      cases hstep
      obtain rfl := hrest.1
      exact hs
  · cases hstep
  · cases hstep
  · cases hstep

end

end StackFrame

/-! ### Registers saved on the stack -/

section
variable {Obj Stub Lbl : Type} [DecidableEq Obj] {h : Host Obj Stub} {o : Obj} {top : ℕ}
  {s s' : State Obj}

/-- The stack below `top` after the words have been pushed, the first one first. -/
def pushed (m : ByteMem) (top : ℕ) : List (BitVec 64) → ByteMem
  | [] => m
  | v :: vs => pushed (m.store (top - 8) 8 v) (top - 8) vs

lemma pushed_of_le {m : ByteMem} {vs : List (BitVec 64)} {a : ℕ} (hroom : 8 * vs.length ≤ top)
    (ha : top ≤ a) : pushed m top vs a = m a := by
  induction vs generalizing m top with
  | nil => rfl
  | cons v vs ih =>
    rw [List.length_cons] at hroom
    rw [pushed, ih (by omega) (by omega), ByteMem.store_apply_of_notMem _ (Or.inr (by omega))]

/-- The words are read back from where they have been pushed. -/
lemma load_pushed {m : ByteMem} {vs : List (BitVec 64)} {k : ℕ} {v : BitVec 64}
    (hroom : 8 * vs.length ≤ top) (hk : vs[k]? = some v) :
    (pushed m top vs).load (top - 8 * (k + 1)) 8 = v := by
  induction vs generalizing m top k with
  | nil => cases hk
  | cons w vs ih =>
    rw [List.length_cons] at hroom
    cases k with
    | zero =>
      obtain rfl : w = v := by simpa using hk
      have hsame : ((pushed (m.store (top - 8) 8 w) (top - 8) vs).load (top - 8) 8 : BitVec 64) =
          (m.store (top - 8) 8 w).load (top - 8) 8 :=
        ByteMem.load_congr fun x hx _ => pushed_of_le (by omega) hx
      exact hsame.trans ((ByteMem.load_store _ _ _ _).trans
        (ByteMem.lowBytes_of_le (by decide) _))
    | succ k =>
      rw [List.getElem?_cons_succ] at hk
      rw [show top - 8 * (k + 1 + 1) = top - 8 - 8 * (k + 1) by omega]
      exact ih (by omega) hk

/-- Registers are pushed. -/
lemma straight_push {rs : List ℕ} (hrs : SP ∉ rs) (hsp : s.regs SP = .ptr o top) :
    ∃ s', Straight h (rs.map .push : List (Insn Obj Stub Lbl)) s s' ∧
      s'.regs SP = .ptr o (top - 8 * rs.length) ∧ (∀ r ≠ SP, s'.regs r = s.regs r) ∧
      s'.mem (some o) = pushed (s.mem (some o)) top (rs.map fun r => (s.regs r).bits h) := by
  induction rs generalizing s top with
  | nil => exact ⟨s, rfl, hsp, fun _ _ => rfl, rfl⟩
  | cons r rs ih =>
    obtain ⟨hr, hrs⟩ := not_or.mp (List.mem_cons.not.mp hrs)
    let s₁ := (s.setReg SP (.ptr o (top - 8))).setMem (some o)
      ((s.mem (some o)).store (top - 8) 8 ((s.regs r).bits h))
    have hregs : ∀ q ≠ SP, s₁.regs q = s.regs q := fun q hq => State.setReg_of_ne hq
    have hsp₁ : s₁.regs SP = .ptr o (top - 8) :=
      (congrFun (State.setMem_regs _ _ _) SP).trans State.setReg_self
    obtain ⟨s', hrun, hsp', hregs', hmem'⟩ := ih hrs hsp₁
    refine ⟨s', ⟨s₁, Insn.exec_push hsp, hrun⟩, ?_, fun q hq => ?_, ?_⟩
    · rw [hsp', List.length_cons, show top - 8 - 8 * rs.length = top - 8 * (rs.length + 1) by omega]
    · rw [hregs' q hq, hregs q hq]
    · have hvals : (rs.map fun q => (s₁.regs q).bits h) = rs.map fun q => (s.regs q).bits h := by
        refine List.map_congr_left fun q hq => ?_
        rw [hregs q fun hqs => hrs (hqs ▸ hq)]
      rw [hmem', hvals, List.map_cons, pushed]
      simp only [s₁, State.setMem_self]

/-- Registers are popped. -/
lemma straight_pop {rs : List ℕ} (hrs : SP ∉ rs) (hn : rs.Nodup) (hsp : s.regs SP = .ptr o top) :
    ∃ s', Straight h (rs.map .pop : List (Insn Obj Stub Lbl)) s s' ∧
      s'.regs SP = .ptr o (top + 8 * rs.length) ∧ s'.mem = s.mem ∧
      (∀ k r, rs[k]? = some r → s'.regs r = .word ((s.mem (some o)).load (top + 8 * k) 8)) ∧
      ∀ r ≠ SP, r ∉ rs → s'.regs r = s.regs r := by
  induction rs generalizing s top with
  | nil =>
    refine ⟨s, rfl, hsp, rfl, fun k r hk => ?_, fun _ _ _ => rfl⟩
    cases hk
  | cons r rs ih =>
    obtain ⟨hr, hrs⟩ := not_or.mp (List.mem_cons.not.mp hrs)
    obtain ⟨hnew, hn⟩ := List.nodup_cons.mp hn
    let s₁ := (s.setReg SP (.ptr o (top + 8))).setReg r
      (.word (s.read h .q (.mem .q (.base SP 0))))
    have hsp₁ : s₁.regs SP = .ptr o (top + 8) :=
      (State.setReg_of_ne hr).trans State.setReg_self
    have hr₁ : s₁.regs r = .word ((s.mem (some o)).load top 8) := by
      refine State.setReg_self.trans ?_
      simp only [State.read, State.resolve, hsp, Nat.add_zero, Size.bytes]
    obtain ⟨s', hrun, hsp', hmem', hload', hregs'⟩ := ih hrs hn hsp₁
    refine ⟨s', ⟨s₁, Insn.exec_pop hsp, hrun⟩, ?_, hmem', fun k q hk => ?_, fun q hq hqs => ?_⟩
    · rw [hsp', List.length_cons, show top + 8 + 8 * rs.length = top + 8 * (rs.length + 1) by omega]
    · cases k with
      | zero =>
        obtain rfl : r = q := by simpa using hk
        rw [hregs' r (Ne.symm hr) hnew, hr₁, Nat.mul_zero, Nat.add_zero]
      | succ k =>
        rw [List.getElem?_cons_succ] at hk
        rw [hload' k q hk, show top + 8 + 8 * k = top + 8 * (k + 1) by omega]
        rfl
    · obtain ⟨hqr, hqs⟩ := not_or.mp (List.mem_cons.not.mp hqs)
      rw [hregs' q hq hqs]
      exact (State.setReg_of_ne hqr).trans (State.setReg_of_ne hq)

/-- Popping the registers in the opposite order restores what has been pushed. -/
lemma straight_restore {rs : List ℕ} {vs : List (BitVec 64)} {m : ByteMem}
    (hlen : vs.length = rs.length) (hrs : SP ∉ rs) (hn : rs.Nodup) (hroom : 8 * rs.length ≤ top)
    (hsp : s.regs SP = .ptr o (top - 8 * rs.length))
    (hmem : ∀ a, top - 8 * rs.length ≤ a → s.mem (some o) a = pushed m top vs a) :
    ∃ s', Straight h (rs.reverse.map .pop : List (Insn Obj Stub Lbl)) s s' ∧
      s'.regs SP = .ptr o top ∧ s'.mem = s.mem ∧
      ∀ (k r : ℕ) (v : BitVec 64), rs[k]? = some r → vs[k]? = some v → s'.regs r = .word v := by
  have hrs' : SP ∉ rs.reverse := fun hs => hrs (List.mem_reverse.mp hs)
  have hpop : ∃ s', Straight h (rs.reverse.map .pop : List (Insn Obj Stub Lbl)) s s' ∧ _ :=
    straight_pop hrs' (List.nodup_reverse.mpr hn) hsp
  obtain ⟨s', hrun, hsp', hmem', hload, -⟩ := hpop
  refine ⟨s', hrun, ?_, hmem', fun k r v hr hv => ?_⟩
  · rw [hsp', List.length_reverse, Nat.sub_add_cancel hroom]
  · obtain ⟨hk, -⟩ := List.getElem?_eq_some_iff.mp hr
    have hindex : rs.length - 1 - (rs.length - 1 - k) = k := by omega
    have hrev : rs.reverse[rs.length - 1 - k]? = some r := by
      rw [List.getElem?_reverse (by omega), hindex, hr]
    have hplace : top - 8 * rs.length + 8 * (rs.length - 1 - k) = top - 8 * (k + 1) := by omega
    have hread : ((s.mem (some o)).load (top - 8 * (k + 1)) 8 : BitVec 64) =
        (pushed m top vs).load (top - 8 * (k + 1)) 8 :=
      ByteMem.load_congr fun a ha _ => hmem a (by omega)
    rw [hload _ r hrev, hplace, hread, load_pushed (by rw [hlen]; exact hroom) hv]

end

end X86.Asm
