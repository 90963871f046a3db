/-
# Operands as words

`VOperand` is one 64-bit word: its kind and its type, a bit that tells virtual registers from
physical ones, and behind these a payload that the kinds lay out differently.  `Raw` is that
word with the constructors and accessors of the source; the accessors read back what the
constructors were given, and sort every word into exactly one kind.
-/
import Rv32jit.Ir.Qir
import Rv32jit.Util.BitRange

namespace Rv32jit

namespace IntType

/-- `bool` in a container. -/
abbrev bool : IntType := ⟨8, false⟩

/-- `u8`. -/
abbrev u8 : IntType := ⟨8, false⟩

/-- `u16`. -/
abbrev u16 : IntType := ⟨16, false⟩

/-- `u32`. -/
abbrev u32 : IntType := ⟨32, false⟩

/-- `uptr`. -/
abbrev uptr : IntType := ⟨64, false⟩

end IntType

namespace BfRange

/-- `bf_first`. -/
def first (T : IntType) (sz : ℕ) (hsz : 0 < sz ∧ sz ≤ T.width) : BfRange T :=
  ⟨0, sz - 1, Nat.zero_le _, by omega⟩

/-- `bf_range::next`. -/
def next {T : IntType} (f : BfRange T) (T' : IntType) (sz : ℕ) (hsz : 0 < sz ∧ sz ≤ T'.width) :
    BfRange T' :=
  ⟨f.h + 1, f.h + sz, by omega, by omega⟩

/-- `encode` of a `bool`. -/
def encodeBool {C : IntType} (f : BfRange .bool) (c : C.Val) (t : Bool) : C.Val :=
  f.encode c (if t then 1#8 else 0#8 : BitVec 8)

/-- `decode` to a `bool`. -/
def decodeBool {C : IntType} (f : BfRange .bool) (c : C.Val) : Bool := f.decode_bits c != 0

end BfRange

namespace Qir

/-- `std::bit_width`. -/
def bit_width (n : ℕ) : ℕ := if n = 0 then 0 else Nat.log2 n + 1

/-- `enum_bits`. -/
def enum_bits (count : ℕ) : ℕ := bit_width (count - 1)

/-- The enumerator's value. -/
def VType.toU8 : VType → BitVec 8
  | .UNDEF => 0
  | .I8 => 1
  | .I16 => 2
  | .I32 => 3

/-- `static_cast<VType>` of two bits. -/
def VType.ofU8 (n : BitVec 8) : VType :=
  if n = 0 then .UNDEF else if n = 1 then .I8 else if n = 2 then .I16 else .I32

/-- The number of types. -/
def VType.Count : ℕ := 4

namespace VOperand

/-- `VOperand::Kind`. -/
inductive Kind
  | CONST | GPR | SLOT | BAD
deriving DecidableEq, Repr

/-- The number of a kind. -/
def Kind.toU8 : Kind → BitVec 8
  | .CONST => 0
  | .GPR => 1
  | .SLOT => 2
  | .BAD => 3

/-- `static_cast<Kind>` of two bits. -/
def Kind.ofU8 (n : BitVec 8) : Kind :=
  if n = 0 then .CONST else if n = 1 then .GPR else if n = 2 then .SLOT else .BAD

/-- The number of kinds. -/
def Kind.Count : ℕ := 4

/-- The kind, in the lowest bits. -/
def f_kind : BfRange .u8 := .first .u8 (enum_bits Kind.Count) (by decide)

/-- The type, above the kind. -/
def f_type : BfRange .u8 := f_kind.next .u8 (enum_bits VType.Count) (by decide)

/-- The bit that tells virtual registers from physical ones. -/
def f_is_virtual : BfRange .bool := f_type.next .bool 1 (by decide)

/-- The number of a register. -/
def f_reg : BfRange .u16 := f_is_virtual.next .u16 16 (by decide)

/-- The value of a constant. -/
def f_const : BfRange .u32 := f_is_virtual.next .u32 32 (by decide)

/-- The offset of a slot. -/
def f_slot_offs : BfRange .u16 := f_is_virtual.next .u16 16 (by decide)

/-- The bit that tells slots of the state from those of the frame. -/
def f_slot_is_global : BfRange .bool := f_slot_offs.next .bool 1 (by decide)

/-- `struct VOperand`. -/
structure Raw where
  value : IntType.uptr.Val
deriving DecidableEq

namespace Raw

/-- The default constructor. -/
def makeBad : Raw := ⟨f_kind.encode (C := .uptr) 0 Kind.BAD.toU8⟩

/-- `MakeVGPR`. -/
def makeVGPR (type : VType) (reg : BitVec 16) : Raw :=
  let value : IntType.uptr.Val := 0
  let value := f_kind.encode value Kind.GPR.toU8
  let value := f_type.encode value type.toU8
  let value := f_is_virtual.encodeBool value true
  let value := f_reg.encode value reg
  ⟨value⟩

/-- `MakePGPR`. -/
def makePGPR (type : VType) (reg : BitVec 16) : Raw :=
  let value : IntType.uptr.Val := 0
  let value := f_kind.encode value Kind.GPR.toU8
  let value := f_type.encode value type.toU8
  let value := f_reg.encode value reg
  ⟨value⟩

/-- `MakeConst`. -/
def makeConst (type : VType) (cval : BitVec 32) : Raw :=
  let value : IntType.uptr.Val := 0
  let value := f_kind.encode value Kind.CONST.toU8
  let value := f_type.encode value type.toU8
  let value := f_const.encode value cval
  ⟨value⟩

/-- `MakeSlot`. -/
def makeSlot (is_glob : Bool) (type : VType) (offs : BitVec 16) : Raw :=
  let value : IntType.uptr.Val := 0
  let value := f_kind.encode value Kind.SLOT.toU8
  let value := f_type.encode value type.toU8
  let value := f_slot_offs.encode value offs
  let value := f_slot_is_global.encodeBool value is_glob
  ⟨value⟩

variable (v : Raw)

/-- `GetKind`. -/
def getKind : Kind := .ofU8 (f_kind.decode v.value)

/-- `FlagV`. -/
def flagV : Bool := f_is_virtual.decodeBool v.value

/-- `GetType`. -/
def getType : VType := .ofU8 (f_type.decode v.value)

/-- `IsConst`. -/
def isConst : Bool := v.getKind = .CONST

/-- `IsGPR`. -/
def isGPR : Bool := v.getKind = .GPR

/-- `IsSlot`. -/
def isSlot : Bool := v.getKind = .SLOT

/-- `IsPGPR`. -/
def isPGPR : Bool := v.isGPR && !v.flagV

/-- `IsVGPR`. -/
def isVGPR : Bool := v.isGPR && v.flagV

/-- `IsGSlot`. -/
def isGSlot : Bool := v.isSlot && f_slot_is_global.decodeBool v.value

/-- `IsLSlot`. -/
def isLSlot : Bool := v.isSlot && !f_slot_is_global.decodeBool v.value

/-- The getters assert the kind; nothing where the assertion fails. -/
def isV : Option Bool := if v.isGPR then some v.flagV else none

/-- `GetConst`, which asserts the kind. -/
def getConst : Option (BitVec 32) := if v.isConst then some (f_const.decode v.value) else none

/-- `GetPGPR`, which asserts the kind. -/
def getPGPR : Option (BitVec 16) := if v.isPGPR then some (f_reg.decode v.value) else none

/-- `GetVGPR`, which asserts the kind. -/
def getVGPR : Option (BitVec 16) := if v.isVGPR then some (f_reg.decode v.value) else none

/-- `GetSlotOffs`, which asserts the kind. -/
def getSlotOffs : Option (BitVec 16) :=
  if v.isSlot then some (f_slot_offs.decode v.value) else none

/-- The word that the source builds for an operand. -/
def make : VOperand → Raw
  | .const type cval => makeConst type cval
  | .vgpr type reg => makeVGPR type (.ofNat 16 reg)
  | .pgpr type reg => makePGPR type (.ofNat 16 reg)
  | .slot isGlob type offs => makeSlot isGlob type (.ofNat 16 offs)
  | .bad => makeBad

/-- The operand that the accessors show. -/
def read : Option VOperand :=
  if v.isConst then v.getConst.map (.const v.getType)
  else if v.isVGPR then v.getVGPR.map fun reg => .vgpr v.getType reg.toNat
  else if v.isPGPR then v.getPGPR.map fun reg => .pgpr v.getType reg.toNat
  else if v.isGSlot then v.getSlotOffs.map fun offs => .slot true v.getType offs.toNat
  else if v.isLSlot then v.getSlotOffs.map fun offs => .slot false v.getType offs.toNat
  else some .bad

end Raw

/-- Register numbers and slot offsets are `u16`. -/
def Fits : VOperand → Prop
  | .vgpr _ n | .pgpr _ n | .slot _ _ n => n < 2 ^ 16
  | .const _ _ | .bad => True

/-- The kinds of operands. -/
inductive Sorting
  | constant | virtualReg | physicalReg | localSlot | globalSlot | bad
deriving DecidableEq, Repr

/-- The accessors sort the word there. -/
def Raw.Is (v : Raw) : Sorting → Prop
  | .constant => v.isConst
  | .virtualReg => v.isVGPR
  | .physicalReg => v.isPGPR
  | .localSlot => v.isLSlot
  | .globalSlot => v.isGSlot
  | .bad => v.getKind = .BAD

/-! ### Fields of a word -/

/-- A field of a word that meets the static assertions. -/
def Small {T : IntType} (f : BfRange T) : Prop := f.h < 64 ∧ T.width ≤ 64 ∧ f.size < 64

instance {T : IntType} (f : BfRange T) : Decidable (Small f) := inferInstanceAs (Decidable (_ ∧ _))

variable {T T' : IntType} {f : BfRange T} {g : BfRange T'}

lemma Small.isIn (hf : Small f) : f.In .uptr := ⟨.inr rfl, hf.1, hf.2.1⟩

lemma decode_same (hf : Small f) (hs : T.signed = false) (c : IntType.uptr.Val) {t : T.Val}
    (ht : t.toNat < 2 ^ f.size) : f.decode (f.encode c t) = t := by
  rw [BfRange.decode_encode hf.isIn hf.2.2, BfRange.reduce_of_size_eq hs t ht]

lemma decode_other (hf : Small f) (hg : Small g) (hdisj : f.h < g.l ∨ g.h < f.l)
    (c : IntType.uptr.Val) (t : T'.Val) : f.decode (g.encode c t) = f.decode c :=
  BfRange.decode_encode_of_disjoint hf.isIn hg.isIn hg.2.2 hdisj c t

lemma decode_zero (hf : Small f) : f.decode (0 : IntType.uptr.Val) = 0 :=
  BfRange.decode_zero hf.isIn

lemma decodeBool_eq {f : BfRange .bool} (hf : Small f) (c : IntType.uptr.Val) :
    f.decodeBool c = (f.decode c != 0) := by
  have hlt : (f.decode c).toNat < 2 ^ 64 :=
    Nat.lt_of_lt_of_le (f.decode c).isLt (Nat.pow_le_pow_right (by norm_num) hf.2.1)
  rw [BfRange.decodeBool, BfRange.decode_bits_eq hf.isIn rfl, Bool.eq_iff_iff]
  simp only [bne_iff_ne, ne_eq, ← BitVec.toNat_inj, BitVec.toNat_setWidth]
  rw [Nat.mod_eq_of_lt hlt]
  rfl

lemma decodeBool_same {f : BfRange .bool} (hf : Small f) (c : IntType.uptr.Val) (b : Bool) :
    f.decodeBool (f.encodeBool c b) = b := by
  have hpos : 2 ^ 1 ≤ 2 ^ f.size := Nat.pow_le_pow_right (by norm_num) BfRange.size_pos
  rw [decodeBool_eq hf, BfRange.encodeBool, decode_same hf rfl]
  · cases b <;> rfl
  · cases b
    · exact Nat.lt_of_lt_of_le (by decide) hpos
    · exact Nat.lt_of_lt_of_le (by decide) hpos

lemma decode_encodeBool_other {g : BfRange .bool} (hf : Small f) (hg : Small g)
    (hdisj : f.h < g.l ∨ g.h < f.l) (c : IntType.uptr.Val) (b : Bool) :
    f.decode (g.encodeBool c b) = f.decode c := decode_other hf hg hdisj c _

lemma decodeBool_other {f : BfRange .bool} (hf : Small f) (hg : Small g)
    (hdisj : f.h < g.l ∨ g.h < f.l) (c : IntType.uptr.Val) (t : T'.Val) :
    f.decodeBool (g.encode c t) = f.decodeBool c := by
  rw [decodeBool_eq hf, decodeBool_eq hf, decode_other hf hg hdisj]

lemma decodeBool_zero {f : BfRange .bool} (hf : Small f) :
    f.decodeBool (C := .uptr) 0#64 = false := by
  rw [decodeBool_eq hf, show f.decode (C := .uptr) 0#64 = 0 from decode_zero hf]
  rfl

/-! ### What the constructors leave for the accessors -/

@[simp] lemma ofU8_f_kind (c : IntType.uptr.Val) (k : Kind) :
    Kind.ofU8 (f_kind.decode (f_kind.encode c k.toU8)) = k := by
  rw [decode_same (by decide) rfl _ (by cases k <;> decide)]
  cases k <;> rfl

@[simp] lemma ofU8_f_type (c : IntType.uptr.Val) (type : VType) :
    VType.ofU8 (f_type.decode (f_type.encode c type.toU8)) = type := by
  rw [decode_same (by decide) rfl _ (by cases type <;> decide)]
  cases type <;> rfl

@[simp] lemma decode_f_reg (c : IntType.uptr.Val) (reg : BitVec 16) :
    f_reg.decode (f_reg.encode c reg) = reg := decode_same (by decide) rfl _ reg.isLt

@[simp] lemma decode_f_const (c : IntType.uptr.Val) (cval : BitVec 32) :
    f_const.decode (f_const.encode c cval) = cval := decode_same (by decide) rfl _ cval.isLt

@[simp] lemma decode_f_slot_offs (c : IntType.uptr.Val) (offs : BitVec 16) :
    f_slot_offs.decode (f_slot_offs.encode c offs) = offs := decode_same (by decide) rfl _ offs.isLt

lemma read_makeConst (type : VType) (cval : BitVec 32) :
    (Raw.makeConst type cval).read = some (.const type cval) := by
  simp (disch := decide) [Raw.read, Raw.makeConst, Raw.isConst, Raw.getKind, Raw.getType,
    Raw.getConst, decode_other]

lemma read_makeVGPR (type : VType) (reg : BitVec 16) :
    (Raw.makeVGPR type reg).read = some (.vgpr type reg.toNat) := by
  simp (disch := decide) [Raw.read, Raw.makeVGPR, Raw.isConst, Raw.isGPR, Raw.isVGPR, Raw.getKind,
    Raw.flagV, Raw.getType, Raw.getVGPR, decode_other, decode_encodeBool_other, decodeBool_other,
    decodeBool_same]

lemma read_makePGPR (type : VType) (reg : BitVec 16) :
    (Raw.makePGPR type reg).read = some (.pgpr type reg.toNat) := by
  simp (disch := decide) [Raw.read, Raw.makePGPR, Raw.isConst, Raw.isGPR, Raw.isVGPR, Raw.isPGPR,
    Raw.getKind, Raw.flagV, Raw.getType, Raw.getPGPR, decode_other, decodeBool_other,
    decodeBool_zero]

lemma read_makeSlot (is_glob : Bool) (type : VType) (offs : BitVec 16) :
    (Raw.makeSlot is_glob type offs).read = some (.slot is_glob type offs.toNat) := by
  cases is_glob <;>
  simp (disch := decide) [Raw.read, Raw.makeSlot, Raw.isConst, Raw.isGPR, Raw.isVGPR, Raw.isPGPR,
    Raw.isSlot, Raw.isGSlot, Raw.isLSlot, Raw.getKind, Raw.getType, Raw.getSlotOffs, decode_other,
    decode_encodeBool_other, decodeBool_same]

lemma read_makeBad : Raw.makeBad.read = some .bad := by
  simp [Raw.read, Raw.makeBad, Raw.isConst, Raw.isGPR, Raw.isVGPR, Raw.isPGPR, Raw.isSlot,
    Raw.isGSlot, Raw.isLSlot, Raw.getKind]

/-- The accessors read back what the constructors were given. -/
lemma read_make {op : VOperand} (hop : op.Fits) : (Raw.make op).read = some op := by
  have htoNat : ∀ {n : ℕ}, n < 2 ^ 16 → (BitVec.ofNat 16 n).toNat = n := fun hn => by
    rw [BitVec.toNat_ofNat, Nat.mod_eq_of_lt hn]
  cases op with
  | const type cval => exact read_makeConst type cval
  | vgpr type reg => rw [Raw.make, read_makeVGPR, htoNat hop]
  | pgpr type reg => rw [Raw.make, read_makePGPR, htoNat hop]
  | slot isGlob type offs => rw [Raw.make, read_makeSlot, htoNat hop]
  | bad => exact read_makeBad

/-- Every word is of exactly one kind. -/
lemma existsUnique_is (v : Raw) : ∃! k, v.Is k := by
  cases hk : v.getKind with
  | CONST =>
    refine ⟨.constant, by simp [Raw.Is, Raw.isConst, hk], ?_⟩
    rintro (_ | _ | _ | _ | _ | _) h <;>
      simp_all [Raw.Is, Raw.isVGPR, Raw.isPGPR, Raw.isLSlot, Raw.isGSlot, Raw.isGPR, Raw.isSlot]
  | GPR =>
    cases hv : v.flagV with
    | true =>
      refine ⟨.virtualReg, by simp [Raw.Is, Raw.isVGPR, Raw.isGPR, hk, hv], ?_⟩
      rintro (_ | _ | _ | _ | _ | _) h <;>
        simp_all [Raw.Is, Raw.isConst, Raw.isPGPR, Raw.isLSlot, Raw.isGSlot, Raw.isSlot]
    | false =>
      refine ⟨.physicalReg, by simp [Raw.Is, Raw.isPGPR, Raw.isGPR, hk, hv], ?_⟩
      rintro (_ | _ | _ | _ | _ | _) h <;>
        simp_all [Raw.Is, Raw.isConst, Raw.isVGPR, Raw.isLSlot, Raw.isGSlot, Raw.isSlot]
  | SLOT =>
    cases hg : f_slot_is_global.decodeBool v.value with
    | true =>
      refine ⟨.globalSlot, by simp [Raw.Is, Raw.isGSlot, Raw.isSlot, hk, hg], ?_⟩
      rintro (_ | _ | _ | _ | _ | _) h <;>
        simp_all [Raw.Is, Raw.isConst, Raw.isVGPR, Raw.isPGPR, Raw.isLSlot, Raw.isGPR]
    | false =>
      refine ⟨.localSlot, by simp [Raw.Is, Raw.isLSlot, Raw.isSlot, hk, hg], ?_⟩
      rintro (_ | _ | _ | _ | _ | _) h <;>
        simp_all [Raw.Is, Raw.isConst, Raw.isVGPR, Raw.isPGPR, Raw.isGSlot, Raw.isGPR]
  | BAD =>
    refine ⟨.bad, hk, ?_⟩
    rintro (_ | _ | _ | _ | _ | _) h <;>
      simp_all [Raw.Is, Raw.isConst, Raw.isVGPR, Raw.isPGPR, Raw.isLSlot, Raw.isGSlot, Raw.isGPR,
        Raw.isSlot]

end VOperand

/-- Bit fields round-trip and keep to their bits; operands read back as they were built, and
are of one kind. -/
theorem bit_fields_round_trip {T C : IntType} (f : BfRange T) (hC : f.In C) (hsize : f.size < 64)
    (c : C.Val) (t : T.Val) (op : VOperand) (hop : op.Fits) (v : VOperand.Raw) :
    f.decode (f.encode c t) = f.reduce t ∧
      (∀ i < C.width, i < f.l ∨ f.h < i → (f.encode c t).getLsbD i = c.getLsbD i) ∧
      (VOperand.Raw.make op).read = some op ∧ ∃! k, v.Is k := by
  refine ⟨BfRange.decode_encode hC hsize c t, fun i hi hout => ?_, VOperand.read_make hop,
    VOperand.existsUnique_is v⟩
  rw [BfRange.getLsbD_encode hC hsize c t hi, if_neg (by omega)]

/-- A signed field of 12 bits at the top of an instruction word, and a slot. -/
theorem bit_fields_round_trip_imm :
    let f : BfRange ⟨16, true⟩ := ⟨20, 31, by decide, by decide⟩
    f.decode (C := ⟨32, false⟩) (f.encode (C := ⟨32, false⟩) 0x13#32 0xFFFE#16) = 0xFFFE#16 ∧
      (VOperand.Raw.make (.slot true .I32 8)).read = some (.slot true .I32 8) := by
  have h := bit_fields_round_trip (T := ⟨16, true⟩) (C := ⟨32, false⟩)
    ⟨20, 31, by decide, by decide⟩ ⟨.inl rfl, by decide, by decide⟩ (by decide) 0x13#32 0xFFFE#16
    (.slot true .I32 8) (by simp [VOperand.Fits]) VOperand.Raw.makeBad
  exact ⟨h.1.trans (by decide), h.2.2.1⟩

end Qir

end Rv32jit
