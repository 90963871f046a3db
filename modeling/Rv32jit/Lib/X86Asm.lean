/-
# Assembly for x86-64

The instructions that an assembler is asked for, with their operands, and what they do.  Registers
hold words or pointers into objects of the host, so that memory is a family of byte memories of
which no two overlap; a word that is used as an address is one in the memory at absolute addresses.
Which requests can be encoded belongs to the instructions; the encodings do not.
-/
import Rv32jit.Lib.ByteMem
import Mathlib.Logic.Relation

namespace X86.Asm

/-! ### Operands -/

/-- The sizes of operands. -/
inductive Size
  | b | w | d | q
deriving DecidableEq, Repr

namespace Size

/-- The number of bytes of a size. -/
def bytes : Size → ℕ
  | b => 1
  | w => 2
  | d => 4
  | q => 8

/-- The number of bits of a size. -/
abbrev bits : Size → ℕ
  | b => 8
  | w => 16
  | d => 32
  | q => 64

lemma bits_le (sz : Size) : sz.bits ≤ 64 := by cases sz <;> decide

end Size

/-- The register whose low byte counts shifts. -/
def CX : ℕ := 1

/-- The number of the stack pointer. -/
def SP : ℕ := 4

section
variable (Obj : Type)

/-- What a register holds. -/
inductive Val
  | word (v : BitVec 64)
  | ptr (o : Obj) (off : ℕ)
deriving DecidableEq

end

/-- The addressing modes: a 64-bit register and a displacement, a 32-bit register, an absolute
address, a 64-bit register with an index and a displacement, and a scaled index. -/
inductive Mem
  | base (r disp : ℕ)
  | base32 (r : ℕ)
  | abs (addr : BitVec 64)
  | sum (r x disp : ℕ)
  | scaled (x shift : ℕ)
deriving DecidableEq, Repr

/-- Operands, among them the address of an object as a constant. -/
inductive Opnd (Obj : Type)
  | reg (sz : Size) (r : ℕ)
  | mem (sz : Size) (m : Mem)
  | imm (v : BitVec 64)
  | obj (o : Obj)
deriving DecidableEq

/-- The size of an operand; that of a constant is that of the operation. -/
def Opnd.size {Obj : Type} : Opnd Obj → Option Size
  | reg sz _ | mem sz _ => some sz
  | imm _ | obj _ => none

/-! ### Conditions -/

/-- The status flags that conditions read. -/
structure Flags where
  zf : Bool
  sf : Bool
  cf : Bool
  of : Bool
deriving DecidableEq, Repr

namespace Flags

variable {n : ℕ}

/-- The flags after the subtraction, and after the comparison. -/
def sub (x y : BitVec n) : Flags :=
  ⟨x - y == 0, (x - y).msb, BitVec.usubOverflow x y, BitVec.ssubOverflow x y⟩

/-- The flags after an addition. -/
def add (x y : BitVec n) : Flags :=
  ⟨x + y == 0, (x + y).msb, BitVec.uaddOverflow x y, BitVec.saddOverflow x y⟩

/-- The flags after a bitwise operation, of its result. -/
def logic (r : BitVec n) : Flags := ⟨r == 0, r.msb, false, false⟩

end Flags

/-- Conditions on the flags: equal, not equal, and the orders, signed and unsigned. -/
inductive Cc
  | e | ne | le | l | ge | g | be | b | ae | a
deriving DecidableEq, Repr

/-- The condition holds of the flags. -/
def Cc.holds (f : Flags) : Cc → Bool
  | e => f.zf
  | ne => !f.zf
  | le => f.zf || f.sf != f.of
  | l => f.sf != f.of
  | ge => f.sf == f.of
  | g => !f.zf && f.sf == f.of
  | be => f.cf || f.zf
  | b => f.cf
  | ae => !f.cf
  | a => !f.cf && !f.zf

section
variable {n : ℕ} (x y : BitVec n)

lemma Flags.sub_zf : (Flags.sub x y).zf = (x == y) := by
  rw [Bool.eq_iff_iff]
  simp only [Flags.sub, beq_iff_eq]
  constructor
  · intro h
    rw [← BitVec.sub_add_cancel x y, h]
    exact BitVec.zero_add y
  · rintro rfl
    exact BitVec.sub_self x

/-- Sign and overflow tell the signed order. -/
lemma Flags.sub_sf_of : ((Flags.sub x y).sf != (Flags.sub x y).of) = x.slt y := by
  simp only [Flags.sub, BitVec.slt_eq_decide]
  by_cases hof : BitVec.ssubOverflow x y = true
  · -- the operands have different signs, and the difference has that of the second
    have hsign := hof
    rw [BitVec.ssubOverflow_eq] at hsign
    simp only [BitVec.msb_eq_toInt] at hsign ⊢
    rw [hof]
    grind
  · rw [BitVec.msb_eq_toInt, BitVec.toInt_sub_of_not_ssubOverflow hof,
      Bool.eq_false_iff.mpr hof, Bool.bne_false]
    exact decide_eq_decide.mpr ⟨fun h => by omega, fun h => by omega⟩

/-- After a comparison the conditions are the orders. -/
lemma Cc.holds_sub (cc : Cc) : cc.holds (.sub x y) = match cc with
    | e => x == y
    | ne => x != y
    | le => x.sle y
    | l => x.slt y
    | ge => y.sle x
    | g => y.slt x
    | be => x.ule y
    | b => x.ult y
    | ae => y.ule x
    | a => y.ult x := by
  have hcf : (Flags.sub x y).cf = x.ult y := rfl
  have hzf := Flags.sub_zf x y
  have hl := Flags.sub_sf_of x y
  have hge : ((Flags.sub x y).sf == (Flags.sub x y).of) = !x.slt y := by
    rw [← hl, bne, Bool.not_not]
  have hnat : (x == y) = decide (x.toNat = y.toNat) := by
    rw [Bool.eq_iff_iff, beq_iff_eq, decide_eq_true_iff, BitVec.toNat_inj]
  have hint : (x == y) = decide (x.toInt = y.toInt) := by
    rw [Bool.eq_iff_iff, beq_iff_eq, decide_eq_true_iff, BitVec.toInt_inj]
  cases cc with
  | e => exact hzf
  | ne => exact congrArg not hzf
  | l => exact hl
  | le =>
    calc ((Flags.sub x y).zf || (Flags.sub x y).sf != (Flags.sub x y).of)
        = (x == y || x.slt y) := by rw [hzf, hl]
      _ = x.sle y := by rw [BitVec.sle_eq_slt_or_eq, Bool.or_comm]
  | ge => exact hge.trans BitVec.sle_eq_not_slt.symm
  | g =>
    calc (!(Flags.sub x y).zf && (Flags.sub x y).sf == (Flags.sub x y).of)
        = (!(x == y) && !x.slt y) := by rw [hzf, hge]
      _ = y.slt x := by
        rw [hint, BitVec.slt_eq_decide, BitVec.slt_eq_decide]
        grind
  | be =>
    calc ((Flags.sub x y).cf || (Flags.sub x y).zf)
        = (x.ult y || x == y) := by rw [hcf, hzf]
      _ = x.ule y := by
        rw [hnat, BitVec.ult_eq_decide, BitVec.ule_eq_decide]
        grind
  | b => exact hcf
  | ae => exact (congrArg not hcf).trans (BitVec.ule_eq_not_ult y x).symm
  | a =>
    calc (!(Flags.sub x y).cf && !(Flags.sub x y).zf)
        = (!x.ult y && !(x == y)) := by rw [hcf, hzf]
      _ = y.ult x := by
        rw [hnat, BitVec.ult_eq_decide, BitVec.ult_eq_decide]
        grind

end

/-! ### Instructions -/

/-- The two-operand operations. -/
inductive Alu
  | add | sub | and | or | xor
deriving DecidableEq, Repr

namespace Alu

variable {n : ℕ}

/-- The result of an operation. -/
def eval (op : Alu) (x y : BitVec n) : BitVec n :=
  match op with
  | add => x + y
  | sub => x - y
  | and => x &&& y
  | or => x ||| y
  | xor => x ^^^ y

/-- The flags after an operation. -/
def flags (op : Alu) (x y : BitVec n) : Flags :=
  match op with
  | add => .add x y
  | sub => .sub x y
  | _ => .logic (op.eval x y)

end Alu

/-- The shifts. -/
inductive Shift
  | shl | shr | sar
deriving DecidableEq, Repr

/-- The result of a shift. -/
def Shift.eval {n : ℕ} (op : Shift) (x : BitVec n) (k : ℕ) : BitVec n :=
  match op with
  | shl => x <<< k
  | shr => x >>> k
  | sar => x.sshiftRight k

/-- Instructions; the host has stubs that can be called. -/
inductive Insn (Obj Stub Lbl : Type)
  | mov (d s : Opnd Obj)
  | movzx (d s : Opnd Obj)
  | movsx (d s : Opnd Obj)
  | alu (op : Alu) (d s : Opnd Obj)
  | cmp (d s : Opnd Obj)
  | shift (op : Shift) (d s : Opnd Obj)
  | setcc (cc : Cc) (d : Opnd Obj)
  | lea (d : Opnd Obj) (m : Mem)
  | push (r : ℕ)
  | pop (r : ℕ)
  | jmp (l : Lbl)
  | jcc (cc : Cc) (l : Lbl)
  | jmpInd (t : Opnd Obj)
  | call (stub : Stub)
deriving DecidableEq

section
variable {Obj Stub Lbl Slot : Type}

/-- Two operands of a move or of an operation: at most one is in memory, the sizes are equal, and
the first is no constant. -/
def Opnd.fits : Opnd Obj → Opnd Obj → Bool
  | reg sz _, reg sz' _ | reg sz _, mem sz' _ | mem sz _, reg sz' _ => sz == sz'
  | reg _ _, imm _ | mem _ _, imm _ => true
  | _, _ => false

/-- The requests that can be encoded. -/
def Insn.encodes : Insn Obj Stub Lbl → Bool
  | mov (.reg sz _) (.obj _) => sz == .q
  | mov d s | alu _ d s | cmp d s => d.fits s
  | movzx (.reg sz _) (.reg sz' _) | movzx (.reg sz _) (.mem sz' _)
  | movsx (.reg sz _) (.reg sz' _) | movsx (.reg sz _) (.mem sz' _) =>
      sz' != .d && sz' != .q && decide (sz'.bytes < sz.bytes)
  | shift _ (.reg _ _) (.imm _) => true
  | shift _ (.reg _ _) (.reg _ r) => r == CX
  | setcc _ (.reg sz _) => sz == .b
  | lea (.reg _ _) _ => true
  | jmpInd (.reg sz _) | jmpInd (.mem sz _) => sz == .q
  | push _ | pop _ | jmp _ | jcc _ _ | call _ => true
  | _ => false

lemma Insn.encodes_mov {d s : Opnd Obj} (hf : d.fits s = true) :
    (mov d s : Insn Obj Stub Lbl).encodes = true := by
  cases d <;> cases s <;> first | exact hf | cases hf

/-! ### Code -/

/-- What code consists of: labels, instructions, and data that control leaves the code at. -/
inductive Item (Obj Stub Lbl Slot : Type)
  | label (l : Lbl)
  | insn (i : Insn Obj Stub Lbl)
  | data (d : Slot)
deriving DecidableEq

/-- The place of a label. -/
def labelPos [DecidableEq Lbl] (code : List (Item Obj Stub Lbl Slot)) (l : Lbl) : Option ℕ :=
  code.findIdx? fun
    | .label l' => l' = l
    | _ => false

/-- The labels that are bound in the code. -/
def labels (code : List (Item Obj Stub Lbl Slot)) : List Lbl :=
  code.filterMap fun
    | .label l => some l
    | _ => none

section
variable {code code' : List (Item Obj Stub Lbl Slot)} {item : Item Obj Stub Lbl Slot} {l : Lbl}

@[simp] lemma labels_nil : labels ([] : List (Item Obj Stub Lbl Slot)) = [] := rfl

@[simp] lemma labels_label : labels (.label l :: code) = l :: labels code := rfl

@[simp] lemma labels_insn {i : Insn Obj Stub Lbl} : labels (.insn i :: code) = labels code := rfl

@[simp] lemma labels_data {d : Slot} : labels (.data d :: code) = labels code := rfl

@[simp] lemma labels_append : labels (code ++ code') = labels code ++ labels code' :=
  List.filterMap_append

@[simp] lemma labels_insns (is : List (Insn Obj Stub Lbl)) :
    labels (is.map .insn : List (Item Obj Stub Lbl Slot)) = [] := by
  induction is with
  | nil => rfl
  | cons i is ih => exact ih

lemma mem_labels : l ∈ labels code ↔ ∃ pos : ℕ, code[pos]? = some (.label l) := by
  simp only [labels, List.mem_filterMap, ← List.mem_iff_getElem?]
  constructor
  · rintro ⟨item, hitem, hl⟩
    cases item with
    | label l' =>
      obtain rfl : l' = l := by simpa using hl
      exact hitem
    | _ => cases hl
  · exact fun hl => ⟨_, hl, rfl⟩

/-- In code that binds every label once a label has the place where it is bound. -/
lemma labelPos_of_get [DecidableEq Lbl] {pos : ℕ} (hn : (labels code).Nodup)
    (hl : code[pos]? = some (.label l)) : labelPos code l = some pos := by
  induction code generalizing pos with
  | nil => cases hl
  | cons item code ih =>
    cases pos with
    | zero =>
      obtain rfl : item = .label l := by simpa using hl
      simp [labelPos, List.findIdx?_cons]
    | succ pos =>
      have hl' : code[pos]? = some (.label l) := by simpa using hl
      cases item with
      | label l' =>
        obtain ⟨hnew, hn⟩ := List.nodup_cons.mp hn
        have hne : l' ≠ l := by
          rintro rfl
          exact hnew (mem_labels.mpr ⟨pos, hl'⟩)
        have := ih hn hl'
        simp only [labelPos] at this ⊢
        simp [List.findIdx?_cons, hne, this]
      | insn i | data d =>
        have := ih hn hl'
        simp only [labelPos] at this ⊢
        simp [List.findIdx?_cons, this]

end

/-- The items stand at a place of the code. -/
def Placed (code : List (Item Obj Stub Lbl Slot)) (pos : ℕ)
    (items : List (Item Obj Stub Lbl Slot)) : Prop :=
  items <+: code.drop pos

namespace Placed

variable {code : List (Item Obj Stub Lbl Slot)} {pos : ℕ}
  {items items' : List (Item Obj Stub Lbl Slot)} {item : Item Obj Stub Lbl Slot}

lemma of_eq {pre post : List (Item Obj Stub Lbl Slot)} (hcode : code = pre ++ items ++ post) :
    Placed code pre.length items := by
  rw [Placed, hcode, List.append_assoc, List.drop_left]
  exact List.prefix_append _ _

lemma left (hp : Placed code pos (items ++ items')) : Placed code pos items :=
  (List.prefix_append _ _).trans hp

lemma right (hp : Placed code pos (items ++ items')) :
    Placed code (pos + items.length) items' := by
  obtain ⟨post, hpost⟩ := hp
  rw [Placed, ← List.drop_drop, ← hpost, List.append_assoc, List.drop_left]
  exact List.prefix_append _ _

lemma head (hp : Placed code pos (item :: items)) : code[pos]? = some item := by
  obtain ⟨post, hpost⟩ := hp
  have := congrArg (·[0]?) hpost
  simpa [List.getElem?_drop] using this.symm

lemma tail (hp : Placed code pos (item :: items)) : Placed code (pos + 1) items :=
  show Placed code (pos + [item].length) items from right hp

end Placed

/-! ### The machine -/

/-- Registers, flags and memory: that of each object, and that at absolute addresses. -/
structure State (Obj : Type) where
  regs : ℕ → Val Obj
  flags : Flags
  mem : Option Obj → ByteMem

/-- What is around the code: where the objects lie, what shifts leave in the flags, and what the
stubs do, with whether they do not return; nothing for a call that has no meaning. -/
structure Host (Obj Stub : Type) where
  base : Obj → BitVec 64
  shiftFlags : State Obj → Flags
  call : Stub → State Obj → Option (State Obj × Bool)

variable (h : Host Obj Stub)

/-- The bits of a value; those of a pointer depend on where the host has put the object. -/
def Val.bits : Val Obj → BitVec 64
  | word v => v
  | ptr o off => h.base o + .ofNat 64 off

namespace State

variable (s : State Obj)

/-- The memory and the index that an address stands for. -/
def resolve : Mem → Option Obj × ℕ
  | .base r disp => match s.regs r with
    | .word v => (none, (v + .ofNat 64 disp).toNat)
    | .ptr o off => (some o, off + disp)
  | .base32 r => (none, (((s.regs r).bits h).setWidth 32).toNat)
  | .abs addr => (none, addr.toNat)
  | .sum r x disp => match s.regs r with
    | .word v => (none, (v + (s.regs x).bits h + .ofNat 64 disp).toNat)
    | .ptr o off => (some o, off + ((s.regs x).bits h).toNat + disp)
  | .scaled x shift => (none, ((s.regs x).bits h <<< shift).toNat)

/-- The value of an address. -/
def addr (m : Mem) : BitVec 64 :=
  match s.resolve h m with
  | (some o, off) => h.base o + .ofNat 64 off
  | (none, a) => .ofNat 64 a

/-- An operand at a size. -/
def read (sz : Size) : Opnd Obj → BitVec sz.bits
  | .reg _ r => ((s.regs r).bits h).setWidth sz.bits
  | .mem _ m => (s.mem (s.resolve h m).1).load (s.resolve h m).2 sz.bytes
  | .imm v => v.setWidth sz.bits
  | .obj o => (h.base o).setWidth sz.bits

/-- An operand with what is known of a pointer. -/
def readVal (sz : Size) : Opnd Obj → Val Obj
  | .obj o => .ptr o 0
  | .reg .q r => s.regs r
  | opnd => .word ((s.read h sz opnd).setWidth 64)

/-- Overwrites a register. -/
def setReg (r : ℕ) (v : Val Obj) : State Obj := { s with regs := Function.update s.regs r v }

variable {s} in
@[simp] lemma setReg_self {r : ℕ} {v : Val Obj} : (s.setReg r v).regs r = v :=
  Function.update_self ..

variable {s} in
@[simp] lemma setReg_of_ne {r p : ℕ} {v : Val Obj} (hp : p ≠ r) :
    (s.setReg r v).regs p = s.regs p :=
  Function.update_of_ne hp ..

@[simp] lemma setReg_mem (r : ℕ) (v : Val Obj) : (s.setReg r v).mem = s.mem := rfl

variable [DecidableEq Obj]

/-- Overwrites the memory of an object. -/
def setMem (o : Option Obj) (m : ByteMem) : State Obj := { s with mem := Function.update s.mem o m }

variable {s} in
@[simp] lemma setMem_self {o : Option Obj} {m : ByteMem} : (s.setMem o m).mem o = m :=
  Function.update_self ..

variable {s} in
@[simp] lemma setMem_of_ne {o o' : Option Obj} {m : ByteMem} (ho : o' ≠ o) :
    (s.setMem o m).mem o' = s.mem o' :=
  Function.update_of_ne ho ..

@[simp] lemma setMem_regs (o : Option Obj) (m : ByteMem) : (s.setMem o m).regs = s.regs := rfl

/-- Writes an operand at a size: 32 bits clear the upper half of a register, and fewer leave the
rest of it. -/
def write (sz : Size) (opnd : Opnd Obj) (v : BitVec sz.bits) : State Obj :=
  match opnd with
  | .reg _ r =>
      match sz with
      | .b | .w => s.setReg r (.word (ByteMem.setLow sz.bytes ((s.regs r).bits h) (v.setWidth 64)))
      | .d | .q => s.setReg r (.word (v.setWidth 64))
  | .mem _ m =>
      s.setMem (s.resolve h m).1 ((s.mem (s.resolve h m).1).store (s.resolve h m).2 sz.bytes v)
  | .imm _ | .obj _ => s

/-- Writes a value, which stays a pointer in a whole register. -/
def writeVal (opnd : Opnd Obj) (v : Val Obj) : State Obj :=
  match opnd with
  | .reg .q r => s.setReg r v
  | _ => s.write h (opnd.size.getD .q) opnd ((v.bits h).setWidth _)

/-- The stack pointer with an offset. -/
def moveSp (f : ℕ → ℕ) (g : BitVec 64 → BitVec 64) : State Obj :=
  s.setReg SP (match s.regs SP with
    | .word v => .word (g v)
    | .ptr o off => .ptr o (f off))

end State

/-- How an instruction goes on: behind itself, at a label, at an address outside, not at all after
a trap, or without a meaning. -/
inductive Res (Obj Lbl : Type)
  | next (s : State Obj)
  | jump (l : Lbl) (s : State Obj)
  | leave (t : Val Obj) (s : State Obj)
  | trap (s : State Obj)
  | stuck

variable [DecidableEq Obj]

/-- One instruction. -/
def Insn.exec (s : State Obj) : Insn Obj Stub Lbl → Res Obj Lbl
  | mov d src => .next (s.writeVal h d (s.readVal h (d.size.getD .q) src))
  | movzx d src =>
      .next (s.write h (d.size.getD .q) d ((s.read h (src.size.getD .b) src).setWidth _))
  | movsx d src =>
      .next (s.write h (d.size.getD .q) d ((s.read h (src.size.getD .b) src).signExtend _))
  | alu op d src =>
      let x := s.read h (d.size.getD .q) d
      let y := s.read h (d.size.getD .q) src
      .next { s.write h (d.size.getD .q) d (op.eval x y) with flags := op.flags x y }
  | cmp d src =>
      .next { s with
        flags := .sub (s.read h (d.size.getD .q) d) (s.read h (d.size.getD .q) src) }
  | shift op d src =>
      let k := (s.read h .b src).toNat % (if d.size = some .q then 64 else 32)
      .next { s.write h (d.size.getD .q) d (op.eval (s.read h (d.size.getD .q) d) k) with
        flags := h.shiftFlags s }
  | setcc cc d => .next (s.write h .b d (if cc.holds s.flags then 1 else 0))
  | lea d m => .next (s.write h (d.size.getD .q) d ((s.addr h m).setWidth _))
  | push r =>
      let s' := s.moveSp (· - 8) (· - 8)
      .next (s'.write h .q (.mem .q (.base SP 0)) ((s.regs r).bits h))
  | pop r =>
      .next ((s.moveSp (· + 8) (· + 8)).setReg r (.word (s.read h .q (.mem .q (.base SP 0)))))
  | jmp l => .jump l s
  | jcc cc l => if cc.holds s.flags then .jump l s else .next s
  | jmpInd t => .leave (s.readVal h .q t) s
  | call stub => match h.call stub s with
    | some (s', false) => .next s'
    | some (s', true) => .trap s'
    | none => .stuck

section
variable {h} {s : State Obj} {sz : Size} {d src : Opnd Obj}

/-- A move that is no move of an address. -/
lemma Insn.exec_mov (hd : d.size = some sz) (hq : sz ≠ .q) (hf : d.fits src = true) :
    (mov d src : Insn Obj Stub Lbl).exec h s = .next (s.write h sz d (s.read h sz src)) := by
  have hread : s.readVal h sz src = .word ((s.read h sz src).setWidth 64) := by
    cases src with
    | reg sz' r =>
      have hsz' : sz' ≠ .q := by
        rintro rfl
        cases d <;> cases hd <;> cases sz <;> first | exact hq rfl | cases hf
      cases sz' <;> first | rfl | exact absurd rfl hsz'
    | mem _ _ | imm _ => rfl
    | obj o => cases d <;> cases hf
  have hback : ((s.read h sz src).setWidth 64).setWidth sz.bits = s.read h sz src := by
    rw [BitVec.setWidth_setWidth_of_le _ sz.bits_le, BitVec.setWidth_eq]
  have hwrite : s.writeVal h d (.word ((s.read h sz src).setWidth 64)) =
      s.write h sz d (((s.read h sz src).setWidth 64).setWidth sz.bits) := by
    cases d with
    | reg sz' r => cases hd; cases sz <;> rfl
    | mem sz' m => cases hd; rfl
    | imm _ | obj _ => cases hd
  simp only [exec, hd, Option.getD_some, hread, hwrite, hback]

lemma Insn.exec_pop {r : ℕ} {o : Obj} {off : ℕ} (hsp : s.regs SP = .ptr o off) :
    (pop r : Insn Obj Stub Lbl).exec h s = .next ((s.setReg SP (.ptr o (off + 8))).setReg r
      (.word (s.read h .q (.mem .q (.base SP 0))))) := by
  simp only [exec, State.moveSp, hsp]

lemma Insn.exec_push {r : ℕ} {o : Obj} {off : ℕ} (hsp : s.regs SP = .ptr o off) :
    (push r : Insn Obj Stub Lbl).exec h s = .next ((s.setReg SP (.ptr o (off - 8))).setMem (some o)
      ((s.mem (some o)).store (off - 8) 8 ((s.regs r).bits h))) := by
  simp only [exec, State.moveSp, hsp, State.write, State.resolve, State.setReg_self,
    State.setReg_mem, Nat.add_zero, Size.bytes]

lemma Insn.exec_cmp (hd : d.size = some sz) : (cmp d src : Insn Obj Stub Lbl).exec h s =
    .next { s with flags := .sub (s.read h sz d) (s.read h sz src) } := by
  cases d <;> cases hd <;> rfl

end

/-! ### Runs -/

/-- Where the machine stands: at a place in the code, or outside it. -/
inductive Cfg (Obj Slot : Type)
  | at (pc : ℕ) (s : State Obj)
  | left (t : Val Obj) (s : State Obj)
  | data (d : Slot) (s : State Obj)
  | trap (s : State Obj)

variable [DecidableEq Lbl]

/-- One step of the machine; nothing where it has left the code or is stuck. -/
def step (code : List (Item Obj Stub Lbl Slot)) :
    Cfg Obj Slot → Option (Cfg Obj Slot)
  | .at pc s => match code[pc]? with
    | none => none
    | some (.label _) => some (.at (pc + 1) s)
    | some (.data d) => some (.data d s)
    | some (.insn i) => match i.exec h s with
      | .next s' => some (.at (pc + 1) s')
      | .jump l s' => (labelPos code l).map (.at · s')
      | .leave t s' => some (.left t s')
      | .trap s' => some (.trap s')
      | .stuck => none
  | _ => none

/-- The machine comes from one configuration to the other. -/
def Reaches (code : List (Item Obj Stub Lbl Slot)) :
    Cfg Obj Slot → Cfg Obj Slot → Prop :=
  Relation.ReflTransGen fun c c' => step h code c = some c'

/-! ### Rules -/

variable {h} {code : List (Item Obj Stub Lbl Slot)} {pos : ℕ} {s s' : State Obj}
  {c c' : Cfg Obj Slot}

namespace Reaches

lemma refl (c : Cfg Obj Slot) : Reaches h code c c := Relation.ReflTransGen.refl

lemma trans {c'' : Cfg Obj Slot} (h₁ : Reaches h code c c') (h₂ : Reaches h code c' c'') :
    Reaches h code c c'' :=
  Relation.ReflTransGen.trans h₁ h₂

lemma single (hs : step h code c = some c') : Reaches h code c c' :=
  Relation.ReflTransGen.single hs

lemma label {l : Lbl} (hp : code[pos]? = some (.label l)) :
    Reaches h code (.at pos s) (.at (pos + 1) s) :=
  single (by simp only [step, hp])

lemma data {d : Slot} (hp : code[pos]? = some (.data d)) :
    Reaches h code (.at pos s) (.data d s) :=
  single (by simp only [step, hp])

lemma insn {i : Insn Obj Stub Lbl} (hp : code[pos]? = some (.insn i))
    (hi : i.exec h s = .next s') : Reaches h code (.at pos s) (.at (pos + 1) s') :=
  single (by simp only [step, hp, hi])

lemma jump {i : Insn Obj Stub Lbl} {l : Lbl} {pc : ℕ} (hp : code[pos]? = some (.insn i))
    (hi : i.exec h s = .jump l s') (hl : labelPos code l = some pc) :
    Reaches h code (.at pos s) (.at pc s') :=
  single (by simp only [step, hp, hi, hl, Option.map_some])

lemma leave {i : Insn Obj Stub Lbl} {t : Val Obj} (hp : code[pos]? = some (.insn i))
    (hi : i.exec h s = .leave t s') : Reaches h code (.at pos s) (.left t s') :=
  single (by simp only [step, hp, hi])

lemma trap {i : Insn Obj Stub Lbl} (hp : code[pos]? = some (.insn i))
    (hi : i.exec h s = .trap s') : Reaches h code (.at pos s) (.trap s') :=
  single (by simp only [step, hp, hi])

end Reaches

/-- Instructions that all go on behind themselves. -/
def Straight (h : Host Obj Stub) : List (Insn Obj Stub Lbl) → State Obj → State Obj → Prop
  | [], s, s' => s' = s
  | i :: is, s, s' => ∃ s₁, i.exec h s = .next s₁ ∧ Straight h is s₁ s'

lemma Straight.reaches {is : List (Insn Obj Stub Lbl)} (hs : Straight h is s s')
    (hp : Placed code pos (is.map .insn)) :
    Reaches h code (.at pos s) (.at (pos + is.length) s') := by
  induction is generalizing pos s with
  | nil =>
    obtain rfl : s' = s := hs
    exact .refl _
  | cons i is ih =>
    obtain ⟨s₁, hi, hs⟩ := hs
    have := (Reaches.insn hp.head hi).trans (ih hs hp.tail)
    rwa [Nat.add_right_comm] at this

end

end X86.Asm
