/-
# The interpreter implements the instruction set

The handlers, whose text is that of C++ operators on machine words, against the meaning of the
instructions on the integers that the words stand for.
-/
import Rv32jit.Guest.Assemble
import Rv32jit.Guest.Family

namespace Rv32jit.Insn

open CPUState Interp
open Rv32i (Instr AluOp Cond Width Reg State)

/-! ### Operations -/

/-- The operation of the intermediate representation computes what the instruction means. -/
def Means (q : Binop) (a : AluOp) : Prop := ∀ x y, q.value x y = a.eval x y

lemma means_add : Means ⟨.add, rfl, rfl⟩ .add := by
  intro x y
  change x + y = BitVec.ofInt 32 (x.toInt + y.toInt)
  rw [BitVec.ofInt_add, BitVec.ofInt_toInt, BitVec.ofInt_toInt]

lemma means_sub : Means ⟨.sub, rfl, rfl⟩ .sub := by
  intro x y
  change x - y = BitVec.ofInt 32 (x.toInt - y.toInt)
  apply BitVec.eq_of_toInt_eq
  rw [BitVec.toInt_sub, BitVec.toInt_ofInt]

lemma means_sll : Means ⟨.sll, rfl, rfl⟩ .sll := by
  intro x y
  change x <<< (y.toNat % 32) = BitVec.ofNat 32 (x.toNat * 2 ^ (y.toNat % 32))
  apply BitVec.eq_of_toNat_eq
  rw [BitVec.toNat_shiftLeft, Nat.shiftLeft_eq, BitVec.toNat_ofNat]

lemma means_srl : Means ⟨.srl, rfl, rfl⟩ .srl := by
  intro x y
  change x >>> (y.toNat % 32) = BitVec.ofNat 32 (x.toNat / 2 ^ (y.toNat % 32))
  apply BitVec.eq_of_toNat_eq
  rw [BitVec.toNat_ushiftRight, Nat.shiftRight_eq_div_pow, BitVec.toNat_ofNat,
    Nat.mod_eq_of_lt ((Nat.div_le_self _ _).trans_lt x.isLt)]

lemma means_sra : Means ⟨.sra, rfl, rfl⟩ .sra := by
  intro x y
  change x.sshiftRight (y.toNat % 32) = BitVec.ofInt 32 (x.toInt / 2 ^ (y.toNat % 32))
  rw [BitVec.sshiftRight, Int.shiftRight_eq_div_pow, Nat.cast_pow, Nat.cast_ofNat]

lemma means_slt : Means ⟨.setcc .LT, rfl, rfl⟩ .slt := by
  intro x y
  change (if x.slt y then 1#32 else 0#32) = if x.toInt < y.toInt then 1#32 else 0#32
  simp only [BitVec.slt_iff_toInt_lt]

lemma means_sltu : Means ⟨.setcc .LTU, rfl, rfl⟩ .sltu := by
  intro x y
  change (if x.ult y then 1#32 else 0#32) = if x.toNat < y.toNat then 1#32 else 0#32
  simp only [BitVec.ult_iff_toNat_lt]

/-- The condition of a branch. -/
def Tests (cc : Qir.CondCode) (c : Cond) : Prop := ∀ x y, cc.holds x y = true ↔ c.holds x y

lemma tests_branch :
    Tests .EQ .eq ∧ Tests .NE .ne ∧ Tests .LT .lt ∧ Tests .GE .ge ∧ Tests .LTU .ltu ∧
      Tests .GEU .geu := by
  refine ⟨?_, ?_, ?_, ?_, ?_, ?_⟩ <;> intro x y <;> simp only [Qir.CondCode.holds, Cond.holds]
  · exact beq_iff_eq
  · exact bne_iff_ne
  · exact BitVec.slt_iff_toInt_lt
  · exact BitVec.sle_iff_toInt_le
  · exact BitVec.ult_iff_toNat_lt
  · exact BitVec.ule_iff_toNat_le

/-- What the family of an opcode says of the instruction. -/
def Tells (f : Family) (raw : BitVec 32) (i : Instr) : Prop :=
  match f with
  | .illegal => False
  | .lui => i = .lui (rdOf raw) (immU raw)
  | .auipc => i = .auipc (rdOf raw) (immU raw)
  | .jal => i = .jal (rdOf raw) (immJ raw)
  | .jalr => i = .jalr (rdOf raw) (rs1Of raw) (immI raw)
  | .brcc cc => ∃ c, Tests cc c ∧ i = .branch c (rs1Of raw) (rs2Of raw) (immB raw)
  | .load sz sgn => ∃ w signed, w.bytes = sz.toSize ∧ sgn = (if signed then .S else .U) ∧
      i = .load w signed (rdOf raw) (rs1Of raw) (immI raw)
  | .store sz => ∃ w : Width, w.bytes = sz.toSize ∧
      i = .store w (rs1Of raw) (rs2Of raw) (immS raw)
  | .arith q src => ∃ a, Means q a ∧ i = match src with
    | .imm => .opImm a (rdOf raw) (rs1Of raw) (immI raw)
    | .shamt => .opImm a (rdOf raw) (rs1Of raw) (immIS raw)
    | .reg => .op a (rdOf raw) (rs1Of raw) (rs2Of raw)
  | .fence _ => i = .fence ∨ i = .fenceI
  | .call _ trap => i = .ecall ∧ trap = .ECALL ∨ i = .ebreak ∧ trap = .EBREAK

lemma tells_instrOf {op : Op} {raw : BitVec 32} {i : Instr}
    (h : instrOf op (rdOf raw) (rs1Of raw) (rs2Of raw) (immOf op.format raw) = some i) :
    Tells (family op) raw i := by
  obtain ⟨heq, hne, hlt, hge, hltu, hgeu⟩ := tests_branch
  cases op with
  | illegal => cases h
  | lui | auipc | jal | jalr =>
    cases h
    rfl
  | beq => cases h; exact ⟨_, heq, rfl⟩
  | bne => cases h; exact ⟨_, hne, rfl⟩
  | blt => cases h; exact ⟨_, hlt, rfl⟩
  | bge => cases h; exact ⟨_, hge, rfl⟩
  | bltu => cases h; exact ⟨_, hltu, rfl⟩
  | bgeu => cases h; exact ⟨_, hgeu, rfl⟩
  | lb | lh | lw | lbu | lhu =>
    cases h
    exact ⟨_, _, rfl, rfl, rfl⟩
  | sb | sh | sw =>
    cases h
    exact ⟨_, rfl, rfl⟩
  | addi | add => cases h; exact ⟨_, means_add, rfl⟩
  | slti | slt => cases h; exact ⟨_, means_slt, rfl⟩
  | sltiu | sltu => cases h; exact ⟨_, means_sltu, rfl⟩
  | slli | sll => cases h; exact ⟨_, means_sll, rfl⟩
  | srai | sra => cases h; exact ⟨_, means_sra, rfl⟩
  | srli | srl => cases h; exact ⟨_, means_srl, rfl⟩
  | sub => cases h; exact ⟨_, means_sub, rfl⟩
  | xori | ori | andi | xor | or | and =>
    cases h
    exact ⟨_, fun _ _ => rfl, rfl⟩
  | fence => cases h; exact Or.inl rfl
  | fencei => cases h; exact Or.inr rfl
  | ecall => cases h; exact Or.inl ⟨rfl, rfl⟩
  | ebreak => cases h; exact Or.inr ⟨rfl, rfl⟩

lemma instrOf_eq_none {op : Op} {rd rs1 rs2 : Reg} {imm : BitVec 32} :
    instrOf op rd rs1 rs2 imm = none ↔ op = .illegal := by
  cases op <;> simp [instrOf]

/-! ### States -/

/-- The hart is in the state of the instruction set; the handlers keep its guest address apart from
the CPU state. -/
structure Shows (h : Hart) (s : State) : Prop where
  pc : h.gip = s.pc
  x : ∀ r : Reg, gpr h.cpu r = s.x r
  mem : ∀ a : BitVec 32, h.mem a.toNat = s.mem a

variable {h : Hart} {s : State} {raw : BitVec 32}

namespace Shows

lemma x0 (hs : Shows h s) : gpr h.cpu 0 = 0 := (hs.x 0).trans s.x0

lemma setIp (hs : Shows h s) (v : BitVec 32) : Shows { h with cpu := setIp h.cpu v } s :=
  ⟨hs.pc, fun r => (gpr_setIp _ r.isLt v).trans (hs.x r), hs.mem⟩

/-- The handler assigns to the destination and then zero to `x0`. -/
lemma setRd (hs : Shows h s) (rd : Reg) (v : BitVec 32) :
    Shows ((h.setGpr rd v).setGpr 0 0) (s.set rd v) := by
  refine ⟨hs.pc, fun r => ?_, hs.mem⟩
  have hcpu : ((h.setGpr rd v).setGpr 0 0).cpu = if (rd : ℕ) = 0 then h.cpu else
      CPUState.setGpr h.cpu rd v := setGpr_setGpr_zero hs.x0 _ _
  rw [hcpu]
  by_cases hrd : rd = 0
  · subst hrd
    simp only [Fin.val_zero, if_true, State.set]
    rw [if_neg (by tauto), hs.x]
  · rw [if_neg (Fin.val_ne_zero_iff.mpr hrd), gpr_setGpr]
    simp only [State.set, Fin.val_inj, hs.x]
    by_cases hr : r = rd
    · subst hr
      simp [hrd]
    · simp [hr]

lemma withPc (hs : Shows h s) (v : BitVec 32) : Shows { h with gip := v } { s with pc := v } :=
  ⟨rfl, hs.x, hs.mem⟩

lemma next (hs : Shows h s) : Shows { h with gip := h.gip + 4 } s.next := by
  rw [hs.pc]
  exact hs.withPc _

/-- A trap changes the instruction pointer in the CPU state and the trap code. -/
lemma raiseTrap (hs : Shows h s) (t : TrapCode) : Shows (raiseTrap t h).hart s := by
  refine ⟨hs.pc, fun r => ?_, hs.mem⟩
  rw [← hs.x r]
  exact (gpr_setTrapno _ r.isLt t).trans (gpr_setIp _ r.isLt _)

end Shows

/-! ### Memory -/

/-- The number that some bytes stand for. -/
lemma toNat_load {w : ℕ} (m : ByteMem) (a : ℕ) {n : ℕ} (hn : 8 * n ≤ w) :
    (m.load a n : BitVec w).toNat = ∑ i ∈ Finset.range n, (m (a + i)).toNat * 256 ^ i := by
  induction n generalizing a with
  | zero => simp [ByteMem.load]
  | succ n ih =>
    have hlt : (m.load (a + 1) n : BitVec w).toNat < 2 ^ (8 * n) := by
      have := congrArg BitVec.toNat (ByteMem.lowBytes_load (w := w) m (a + 1) n n)
      rw [Nat.min_self, ByteMem.lowBytes, BitVec.toNat_setWidth, BitVec.toNat_setWidth,
        Nat.mod_eq_of_lt (Nat.lt_of_lt_of_le (Nat.mod_lt _ (by positivity))
          (Nat.pow_le_pow_right (by norm_num) (by omega)))] at this
      rw [← this]
      exact Nat.mod_lt _ (by positivity)
    have hw : (m.load (a + 1) n : BitVec w).toNat * 256 < 2 ^ w := by
      calc (m.load (a + 1) n : BitVec w).toNat * 256 < 2 ^ (8 * n) * 256 := by omega
        _ = 2 ^ (8 * (n + 1)) := by ring
        _ ≤ 2 ^ w := Nat.pow_le_pow_right (by norm_num) hn
    have hbyte : (m a).toNat % 2 ^ w = (m a).toNat :=
      Nat.mod_eq_of_lt ((m a).isLt.trans_le (Nat.pow_le_pow_right (by norm_num) (by omega)))
    rw [ByteMem.load, BitVec.toNat_or, BitVec.toNat_setWidth, BitVec.toNat_shiftLeft, hbyte,
      Nat.shiftLeft_eq, Nat.mod_eq_of_lt hw, Nat.or_comm, ← Nat.shiftLeft_eq _ 8,
      ← Nat.shiftLeft_add_eq_or_of_lt (m a).isLt, Nat.shiftLeft_eq, ih _ (by omega),
      Finset.sum_range_succ', Finset.sum_mul, Nat.add_zero, pow_zero, mul_one]
    congr 1
    refine Finset.sum_congr rfl fun i _ => ?_
    rw [show a + 1 + i = a + (i + 1) by omega]
    ring

namespace Shows

lemma load (hs : Shows h s) {a : BitVec 32} {n : ℕ} (hn : n ≤ 4) (hfit : a.toNat + n ≤ 2 ^ 32) :
    (h.mem.load a.toNat n : BitVec 32).toNat = s.bytes a n := by
  rw [toNat_load _ _ (by omega), State.bytes]
  refine Finset.sum_congr rfl fun i hi => ?_
  have hi := Finset.mem_range.mp hi
  have ha : (a + .ofNat 32 i).toNat = a.toNat + i := by
    rw [BitVec.toNat_add, BitVec.toNat_ofNat]
    omega
  rw [← hs.mem, ha]

lemma store (hs : Shows h s) {a : BitVec 32} {n : ℕ} (v : BitVec 32) (hn : n ≤ 4)
    (hfit : a.toNat + n ≤ 2 ^ 32) :
    Shows { h with mem := h.mem.store a.toNat n v } (s.setBytes a n v.toNat) := by
  refine ⟨hs.pc, hs.x, fun b => ?_⟩
  simp only [State.setBytes, ByteMem.store]
  -- the bytes that are written do not go round the ring
  have hin : (b - a).toNat < n ↔ a.toNat ≤ b.toNat ∧ b.toNat < a.toNat + n := by
    rw [BitVec.toNat_sub]
    omega
  by_cases hb : (b - a).toNat < n
  · have hoff : b.toNat - a.toNat = (b - a).toNat := by
      have := hin.mp hb
      rw [BitVec.toNat_sub]
      omega
    rw [if_pos (hin.mp hb), if_pos hb, hoff]
    apply BitVec.eq_of_toNat_eq
    rw [BitVec.extractLsb'_toNat, BitVec.toNat_ofNat, Nat.shiftRight_eq_div_pow,
      Nat.pow_mul]
  · rw [if_neg (fun hx => hb (hin.mpr hx)), if_neg hb]
    exact hs.mem b

end Shows

/-- The value of a load. -/
lemma extend_load (m : ByteMem) (a : ℕ) (sz : Qir.VType) (signed : Bool) :
    (if signed then Qir.VSign.S else .U).extend sz (m.load a sz.toSize) =
      .ofInt 32 (if signed then
        Int.bmod (m.load a sz.toSize : BitVec 32).toNat (256 ^ sz.toSize)
        else ((m.load a sz.toSize : BitVec 32).toNat : ℕ)) := by
  have hsz : sz.toSize ≤ 4 := by cases sz <;> decide
  cases signed with
  | true =>
    simp only [if_true, Qir.VSign.extend]
    rw [← BitVec.ofInt_toInt (x := ((m.load a sz.toSize : BitVec 32).setWidth _).signExtend 32),
      BitVec.toInt_signExtend_of_le (by omega), BitVec.toInt_setWidth, Nat.pow_mul]
  | false =>
    simp only [Bool.false_eq_true, if_false, Qir.VSign.extend]
    rw [ByteMem.lowBytes_load, Nat.min_self, BitVec.ofInt_natCast, BitVec.ofNat_toNat,
      BitVec.setWidth_eq]

/-! ### Instructions -/

/-- The trap code of an exception. -/
def trapCode : Rv32i.Trap → TrapCode
  | .misaligned => .UNALIGNED_IP
  | .illegal => .ILLEGAL_INSN
  | .breakpoint => .EBREAK
  | .call => .ECALL

/-- The handler has done what the instruction does in the state `s`.  After a trap the state is as
before, but for the trap code and for the instruction pointer, which is the address of the
instruction. -/
def Agree (r : Interp.Res) (s : State) (x : Except Rv32i.Trap State) : Prop :=
  match x with
  | .ok s' => r.trapped = false ∧ Shows r.hart s'
  | .error t => r.trapped = true ∧ Shows r.hart s ∧ trapno r.hart.cpu = (trapCode t).toBits ∧
      ip r.hart.cpu = s.pc

lemma agree_raiseTrap (hs : Shows h s) {t : TrapCode} {e : Rv32i.Trap} (ht : t = trapCode e) :
    Agree (Interp.raiseTrap t h) s (.error e) := by
  refine ⟨rfl, hs.raiseTrap t, ?_, ?_⟩
  · rw [← ht]
    exact load_store_word _ _ _
  · rw [← hs.pc]
    exact (ByteMem.load_store_disjoint _ _ (by decide)).trans (load_store_word _ _ _)

/-- The handlers look at the offset of a jump and not at its target. -/
lemma srem_eq_zero (x : BitVec 32) : x.srem 4 = 0 ↔ x.toNat % 4 = 0 := by
  have h : (x.srem 4).toInt = x.toInt.tmod 4 := BitVec.toInt_srem x 4
  have h0 : x.srem 4 = 0 ↔ (x.srem 4).toInt = 0 :=
    ⟨fun h => by rw [h]; rfl, fun h => BitVec.eq_of_toInt_eq (h.trans rfl)⟩
  rw [h0, h, ← Int.dvd_iff_tmod_eq_zero, BitVec.toInt_eq_toNat_cond]
  split <;> omega

/-- A jump or a taken branch that is relative. -/
lemma agree_jump {h₁ : Hart} {s₁ : State} {offset : BitVec 32} (hs : Shows h s)
    (hs₁ : Shows h₁ s₁) (hpc : s.pc.toNat % 4 = 0) (target : BitVec 32)
    (htarget : target = s.pc + offset) {r : Interp.Res}
    (htrap : offset.srem 4 ≠ 0 → r = Interp.raiseTrap .UNALIGNED_IP h)
    (hok : offset.srem 4 = 0 →
      r = { hart := { h₁ with gip := target, cpu := CPUState.setIp h₁.cpu target } }) :
    Agree r s (s₁.jump target) := by
  have hmod : target.toNat % 4 = 0 ↔ offset.srem 4 = 0 := by
    rw [htarget, srem_eq_zero, BitVec.toNat_add]
    omega
  rw [State.jump]
  by_cases h0 : offset.srem 4 = 0
  · rw [if_pos (hmod.mpr h0), hok h0]
    exact ⟨rfl, (hs₁.withPc target).setIp target⟩
  · rw [if_neg (fun h => h0 (hmod.mp h)), htrap h0]
    exact agree_raiseTrap hs rfl

/-- The lowest bit of the target of an indirect jump is cleared. -/
lemma and_not_one (x : BitVec 32) : x &&& ~~~1#32 = .ofNat 32 (x.toNat / 2 * 2) := by
  have hsh : x &&& ~~~1#32 = (x >>> 1) <<< 1 := by
    ext i hi
    rw [BitVec.getElem_and, BitVec.getElem_not, BitVec.getElem_one]
    simp
    grind
  apply BitVec.eq_of_toNat_eq
  rw [hsh, BitVec.toNat_shiftLeft, BitVec.toNat_ushiftRight, BitVec.toNat_ofNat, Nat.shiftLeft_eq,
    Nat.shiftRight_eq_div_pow]

lemma umod_eq_zero (x : BitVec 32) : x.umod 4 = 0 ↔ x.toNat % 4 = 0 := by
  rw [← BitVec.toNat_inj]
  rfl

lemma Shows.rs1 (hs : Shows h s) (raw : BitVec 32) : h.gpr (rs1 raw) = s.x (rs1Of raw) :=
  hs.x (rs1Of raw)

lemma Shows.rs2 (hs : Shows h s) (raw : BitVec 32) : h.gpr (rs2 raw) = s.x (rs2Of raw) :=
  hs.x (rs2Of raw)

/-- The handlers of a family do what the instruction does. -/
lemma agree_handlerFamily {f : Family} {i : Instr} (hi : Tells f raw i) (hs : Shows h s)
    (hpc : s.pc.toNat % 4 = 0)
    (hfit : (i.accesses s).1.toNat + (i.accesses s).2 ≤ 2 ^ 32) :
    Agree (handlerFamily f raw h) s (i.exec s) := by
  have hsave : Shows { h with cpu := CPUState.setIp h.cpu h.gip } s := hs.setIp _
  have hrs1 := hs.rs1 raw
  have hrs2 := hs.rs2 raw
  cases f with
  | illegal => exact hi.elim
  | lui =>
    obtain rfl := hi
    exact ⟨rfl, (hs.setRd (rdOf raw) _).next⟩
  | auipc =>
    obtain rfl := hi
    refine ⟨rfl, ?_⟩
    rw [← hs.pc, BitVec.add_comm]
    exact (hs.setRd (rdOf raw) _).next
  | jal =>
    obtain rfl := hi
    have hlink := hs.setRd (rdOf raw) (h.gip + 4)
    rw [hs.pc] at hlink
    refine agree_jump hs hlink hpc _ rfl (fun h0 => ?_) fun h0 => ?_
    · simp only [handlerFamily, implFamily, implJal, Family.saves, if_pos h0]
      rfl
    · simp only [handlerFamily, implFamily, implJal, Family.saves, if_neg (not_not.mpr h0)]
      rw [← hs.pc]
      rfl
  | jalr =>
    obtain rfl := hi
    have hlink := hs.setRd (rdOf raw) (h.gip + 4)
    have htarget : (h.gpr (rs1 raw) + immI raw) &&& ~~~1#32 =
        .ofNat 32 ((s.x (rs1Of raw) + immI raw).toNat / 2 * 2) := by rw [hrs1, and_not_one]
    simp only [handlerFamily, implFamily, implJalr, Family.saves, Family.hasRd, Family.branches,
      Instr.exec, State.jump, Bool.false_eq_true, if_false, if_true, ne_eq, umod_eq_zero]
    rw [htarget, ← hs.pc]
    by_cases h0 : (BitVec.ofNat 32 ((s.x (rs1Of raw) + immI raw).toNat / 2 * 2)).toNat % 4 = 0
    · rw [if_pos h0, if_neg (not_not.mpr h0)]
      exact ⟨rfl, (hlink.withPc (.ofNat 32 ((s.x (rs1Of raw) + immI raw).toNat / 2 * 2))).setIp _⟩
    · rw [if_neg h0, if_pos h0]
      exact agree_raiseTrap hs rfl
  | brcc cc =>
    obtain ⟨c, hc, rfl⟩ := hi
    have htest : cc.holds (h.gpr (rs1 raw)) (h.gpr (rs2 raw)) = true ↔
        c.holds (s.x (rs1Of raw)) (s.x (rs2Of raw)) := by rw [hrs1, hrs2, hc]
    simp only [handlerFamily, implFamily, implBranch, Family.saves, Family.hasRd, Family.branches,
      Instr.exec, Bool.false_eq_true, if_false, if_true]
    by_cases hb : cc.holds (h.gpr (rs1 raw)) (h.gpr (rs2 raw)) = true
    · rw [if_pos (htest.mp hb), hb]
      refine agree_jump hs hs hpc _ rfl (fun h0 => ?_) fun h0 => ?_
      · simp only [Bool.not_true, Bool.false_eq_true, if_false, if_pos h0]
        rfl
      · simp only [Bool.not_true, Bool.false_eq_true, if_false, if_neg (not_not.mpr h0)]
        rw [← hs.pc]
    · rw [if_neg (fun h => hb (htest.mpr h)), Bool.eq_false_of_not_eq_true hb]
      exact ⟨rfl, hs.next.setIp _⟩
  | load sz sgn =>
    obtain ⟨w, signed, hw, rfl, rfl⟩ := hi
    simp only [Instr.accesses, hw] at hfit
    have hn : sz.toSize ≤ 4 := by cases sz <;> decide
    refine ⟨rfl, ?_⟩
    have hval := extend_load h.mem (s.x (rs1Of raw) + immI raw).toNat sz signed
    rw [hs.load hn hfit] at hval
    rw [hw, ← hval, ← hsave.rs1 raw]
    exact (hsave.setRd (rdOf raw) _).next
  | store sz =>
    obtain ⟨w, hw, rfl⟩ := hi
    simp only [Instr.accesses, hw] at hfit
    have hn : sz.toSize ≤ 4 := by cases sz <;> decide
    refine ⟨rfl, ?_⟩
    have hstore := hsave.store (s.x (rs2Of raw)) hn hfit
    rw [hw]
    rw [← hsave.rs1 raw, ← hsave.rs2 raw] at hstore ⊢
    exact hstore.next
  | arith q src =>
    obtain ⟨a, ha, rfl⟩ := hi
    cases src with
    | imm | shamt =>
      refine ⟨rfl, ?_⟩
      rw [← ha, ← hrs1]
      exact (hs.setRd (rdOf raw) _).next
    | reg =>
      refine ⟨rfl, ?_⟩
      rw [← ha, ← hrs1, ← hrs2]
      exact (hs.setRd (rdOf raw) _).next
  | fence stub =>
    obtain rfl | rfl := hi <;> exact ⟨rfl, hs.next⟩
  | call stub trap =>
    obtain ⟨rfl, rfl⟩ | ⟨rfl, rfl⟩ := hi <;> exact agree_raiseTrap hsave rfl

/-- The access does not go past the last byte of the address space. -/
def Fits (a : Qir.Access) : Prop :=
  match a with
  | .load addr sz _ | .store addr sz _ => addr.toNat + sz.toSize ≤ 2 ^ 32
  | _ => True

lemma accesses_fit {f : Family} {i : Instr} (hi : Tells f raw i) (hs : Shows h s)
    (hfit : ∀ a ∈ (handlerFamily f raw h).acc, Fits a) :
    (i.accesses s).1.toNat + (i.accesses s).2 ≤ 2 ^ 32 := by
  have hsave : Shows { h with cpu := CPUState.setIp h.cpu h.gip } s := hs.setIp _
  have hrs1 := hsave.rs1 raw
  cases f with
  | illegal => exact hi.elim
  | load sz sgn =>
    obtain ⟨w, signed, hw, -, rfl⟩ := hi
    have hacc := hfit _ (List.mem_singleton_self _)
    simp only [Instr.accesses, hw, ← hrs1]
    exact hacc
  | store sz =>
    obtain ⟨w, hw, rfl⟩ := hi
    have hacc := hfit _ (List.mem_singleton_self _)
    simp only [Instr.accesses, hw, ← hrs1]
    exact hacc
  | lui | auipc | jal | jalr =>
    obtain rfl := hi
    exact Nat.zero_le _
  | brcc cc =>
    obtain ⟨c, -, rfl⟩ := hi
    exact Nat.zero_le _
  | arith q src =>
    obtain ⟨a, -, rfl⟩ := hi
    cases src <;> exact Nat.zero_le _
  | fence stub =>
    obtain rfl | rfl := hi <;> exact Nat.zero_le _
  | call stub trap =>
    obtain ⟨rfl, -⟩ | ⟨rfl, -⟩ := hi <;> exact Nat.zero_le _

/-- The handler of a word of an instruction does what the instruction does. -/
lemma agree_step {i : Instr} (hi : Spells i raw) (hs : Shows h s) (hpc : s.pc.toNat % 4 = 0)
    (hfit : ∀ a ∈ (Interp.step raw h).acc, Fits a) : Agree (Interp.step raw h) s (i.exec s) := by
  have htells : Tells (family (decode raw)) raw i := tells_instrOf (instrAt_of_spells hi)
  rw [Interp.step, handler_family] at hfit ⊢
  exact agree_handlerFamily htells hs hpc (accesses_fit htells hs hfit)

/-- The handler of a word of no instruction traps, if the decoder looks at all of the word. -/
lemma agree_illegal (hi : ∀ i, ¬ Spells i raw) (hl : ¬ LooseFunct7 raw) (hs : Shows h s) :
    Agree (Interp.step raw h) s (.error .illegal) := by
  have hop : decode raw = .illegal := by
    by_contra hne
    obtain ⟨i, h⟩ := Option.ne_none_iff_exists'.mp (mt instrOf_eq_none.mp hne)
    exact hi i (spells_of_instrAt hl h)
  rw [Interp.step, handler_family, hop]
  exact agree_raiseTrap (hs.setIp h.gip) rfl

/-- The interpreter does what the instruction set says: for a word of an instruction what the
instruction does, to the registers, the memory and the address of the next instruction, or its
exception; and for a word of no instruction the exception for those.  The word must not be one of
those whose function field the decoder does not look at, and an access of the instruction must not
go past the last byte of the address space. -/
theorem step_implements (hl : ¬ LooseFunct7 raw) (hs : Shows h s) (hpc : s.pc.toNat % 4 = 0)
    (hfit : ∀ a ∈ (Interp.step raw h).acc, Fits a) :
    (∃ i, Spells i raw ∧ Agree (Interp.step raw h) s (i.exec s)) ∨
      (∀ i, ¬ Spells i raw) ∧ Agree (Interp.step raw h) s (.error .illegal) := by
  by_cases hi : ∃ i, Spells i raw
  · obtain ⟨i, hi⟩ := hi
    exact Or.inl ⟨i, hi, agree_step hi hs hpc hfit⟩
  · have hno : ∀ i, ¬ Spells i raw := fun i h => hi ⟨i, h⟩
    exact Or.inr ⟨hno, agree_illegal hno hl hs⟩

/-- A hart whose registers are zero, with the address of each byte in the byte. -/
def plainHart : Hart := ⟨fun _ => 0, 4, fun a => .ofNat 8 a⟩

/-- A state with cleared registers over a memory in which every byte holds its address. -/
def plainState : State := ⟨4, fun _ => 0, rfl, fun a => .ofNat 8 a.toNat⟩

/-- `lw x5, 8(x0)`. -/
theorem step_implements_lw :
    (∃ i, Spells i 0x00802283#32 ∧
        Agree (Interp.step 0x00802283#32 plainHart) plainState (i.exec plainState)) ∨
      (∀ i, ¬ Spells i 0x00802283#32) ∧
        Agree (Interp.step 0x00802283#32 plainHart) plainState (.error .illegal) := by
  refine step_implements (fun hl => hl.1 (by decide)) ⟨rfl, ?_, fun _ => rfl⟩ (by decide)
    fun a ha => ?_
  · decide +kernel
  · rw [Interp.step, handler_family, show decode 0x00802283#32 = .lw by decide] at ha
    obtain rfl := List.mem_singleton.mp ha
    exact show (8 : ℕ) + 4 ≤ 2 ^ 32 by norm_num

end Rv32jit.Insn
