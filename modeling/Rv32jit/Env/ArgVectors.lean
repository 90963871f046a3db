/-
# The initial stack

`env::InitArgVectors` and `env::InitThread`.  The strings are copied to the stack one below the
other; under them, from a fixed allowance downwards, lie the tables: the number of arguments, the
pointers to them, the environment, and the auxiliary vector.
-/
import Rv32jit.Env.ElfImage
import Rv32jit.Guest.CPUState
import Rv32jit.Lib.Bytes

namespace Rv32jit.Env

/-- What the host says of the process. -/
structure HostIds where
  uid : BitVec 32
  euid : BitVec 32
  gid : BitVec 32
  egid : BitVec 32
  clktck : BitVec 32

/-- The end of the stack so far, with the guest memory. -/
structure ArgStack where
  stk : BitVec 32
  mem : ByteMem

namespace ArgStack

/-- `AllocArgVectorStr` on the bytes from a pointer on. -/
def allocBytes (s : ArgStack) (str : List (BitVec 8)) (sz : BitVec 16) : ArgStack :=
  let stk := s.stk - sz.setWidth 32
  ⟨stk, s.mem.storeBytes stk.toNat (str.take sz.toNat)⟩

/-- `AllocArgVectorStr` on a string; the size is narrowed to 16 bits. -/
def allocStr (s : ArgStack) (str : CString) : ArgStack :=
  s.allocBytes str.bytes (.ofNat 16 (str.strlen + 1))

/-- The strings of the argument vector, with the pointers to them. -/
def allocArgv : List CString → ArgStack → List (BitVec 32) × ArgStack
  | [], s => ([], s)
  | str :: argv, s =>
      let s := s.allocStr str
      let r := allocArgv argv s
      (s.stk :: r.1, r.2)

/-- `push_arg`; the stack pointer stands for the position in the table. -/
def pushArg (s : ArgStack) (val : BitVec 32) : ArgStack :=
  ⟨s.stk + 4, s.mem.store s.stk.toNat 4 val⟩

/-- `push_auxv`: the type of an entry and its value. -/
def pushAuxv (s : ArgStack) (e : BitVec 32 × BitVec 32) : ArgStack := (s.pushArg e.1).pushArg e.2

end ArgStack

/-- `"__foo_str__"`. -/
def fooStr : CString := ⟨[0x5F, 0x5F, 0x66, 0x6F, 0x6F, 0x5F, 0x73, 0x74, 0x72, 0x5F, 0x5F], by decide⟩

/-- `"LC_ALL=C"`. -/
def lcAllStr : CString := ⟨[0x4C, 0x43, 0x5F, 0x41, 0x4C, 0x4C, 0x3D, 0x43], by decide⟩

/-- `auxv_salt`. -/
def auxvSalt : List (BitVec 8) := [0, 1, 2, 3, 4, 5, 6, 0, 0, 0, 0, 0, 0, 0, 0, 0]

/-- `envp_n`: one environment string. -/
def envp_n : ℕ := 1

/-- `auxv_n`: the words that are set aside for the auxiliary vector. -/
def auxv_n : ℕ := 64

/-- The type of the entry that ends the vector. -/
def AT_NULL : BitVec 32 := 0

/-- The auxiliary vector in the order of the calls of `push_auxv`. -/
def auxv (host : HostIds) (elf : ElfImage) (auxv_salt_g foo_str_g : BitVec 32) :
    List (BitVec 32 × BitVec 32) :=
  [(3, elf.ehdr.e_phoff + elf.load_addr), (4, .ofNat 32 sizeofPhdr),
    (5, elf.ehdr.e_phnum.setWidth 32), (6, 4096), (7, 0), (8, 0), (9, elf.entry),
    (11, host.uid), (12, host.euid), (13, host.gid), (14, host.egid), (16, 0), (17, host.clktck),
    (23, 0), (25, auxv_salt_g), (31, foo_str_g), (AT_NULL, 0)]

/-- The strings that are copied before the arguments, with the pointers to them. -/
structure FixedStrings where
  foo_str_g : BitVec 32
  lc_all_str_g : BitVec 32
  auxv_salt_g : BitVec 32
  rest : ArgStack

/-- The strings that do not come from the command line. -/
def allocFixed (s : ArgStack) : FixedStrings :=
  let s1 := s.allocStr fooStr
  let s2 := s1.allocStr lcAllStr
  let s3 := s2.allocBytes auxvSalt 16
  ⟨s1.stk, s2.stk, s3.stk, s3⟩

/-- Where the tables start, below the strings. -/
def tableStart (stk : BitVec 32) (argv_n : ℕ) : BitVec 32 :=
  ((stk &&& ~~~3#32) - .ofNat 32 ((argv_n + envp_n + auxv_n + 3) * 4)) &&& ~~~15#32

/-- The tables from their start on. -/
def pushTables (host : HostIds) (elf : ElfImage) (fixed : FixedStrings) (argvPtrs : List (BitVec 32))
    (s : ArgStack) : ByteMem :=
  let argv_n := argvPtrs.length
  let argc_p := s.stk
  let argv_p := argc_p + 4
  let envp_p := argv_p + .ofNat 32 (4 * (argv_n + 1))
  let auxv_p := envp_p + .ofNat 32 (4 * (envp_n + 1))
  let m := (ArgStack.pushArg ⟨argc_p, s.mem⟩ (.ofNat 32 argv_n)).mem
  let m := ((argvPtrs.foldl ArgStack.pushArg ⟨argv_p, m⟩).pushArg 0).mem
  let m := ((ArgStack.pushArg ⟨envp_p, m⟩ fixed.lc_all_str_g).pushArg 0).mem
  ((auxv host elf fixed.auxv_salt_g fixed.foo_str_g).foldl ArgStack.pushAuxv ⟨auxv_p, m⟩).mem

/-- `env::InitArgVectors`, as far as the guest sees it. -/
def initArgVectors (host : HostIds) (elf : ElfImage) (argv : List CString) (mem : ByteMem) :
    ElfImage × ByteMem :=
  let fixed := allocFixed ⟨elf.stack_start, mem⟩
  let (argvPtrs, s) := ArgStack.allocArgv argv fixed.rest
  let stk := tableStart s.stk argv.length
  ({ elf with stack_start := stk }, pushTables host elf fixed argvPtrs ⟨stk, s.mem⟩)

/-- `env::InitThread`; nothing for the failed assertion. -/
def initThread (cpu : ByteMem) (elf : ElfImage) : Option ByteMem :=
  if elf.stack_start &&& 15 ≠ 0 then none
  else some (CPUState.setIp (CPUState.setGpr cpu 2 elf.stack_start) elf.entry)

/-! ### The tables -/

/-- All the words of the tables. -/
def tableWords (host : HostIds) (elf : ElfImage) (fixed : FixedStrings)
    (argvPtrs : List (BitVec 32)) : List (BitVec 32) :=
  .ofNat 32 argvPtrs.length :: argvPtrs ++ [0] ++ [fixed.lc_all_str_g, 0] ++
    (auxv host elf fixed.auxv_salt_g fixed.foo_str_g).flatMap fun e => [e.1, e.2]

namespace ArgStack

lemma stk_foldl_pushArg (l : List (BitVec 32)) (s : ArgStack) :
    (l.foldl pushArg s).stk = s.stk + .ofNat 32 (4 * l.length) := by
  induction l generalizing s with
  | nil => simp
  | cons v l ih =>
    rw [List.foldl_cons, ih, pushArg, List.length_cons, Nat.mul_add, BitVec.add_assoc]
    congr 1
    rw [Nat.add_comm, BitVec.ofNat_add]
    rfl

lemma foldl_pushAuxv (l : List (BitVec 32 × BitVec 32)) (s : ArgStack) :
    l.foldl pushAuxv s = (l.flatMap fun e => [e.1, e.2]).foldl pushArg s := by
  induction l generalizing s with
  | nil => rfl
  | cons e l ih => exact ih _

/-- What a table holds, and that nothing else changes. -/
lemma mem_foldl_pushArg (l : List (BitVec 32)) (s : ArgStack)
    (h : s.stk.toNat + 4 * l.length < 2 ^ 32) :
    (l.foldl pushArg s).mem.HasWords s.stk.toNat l ∧
      ∀ x, x < s.stk.toNat ∨ s.stk.toNat + 4 * l.length ≤ x →
        (l.foldl pushArg s).mem x = s.mem x := by
  induction l generalizing s with
  | nil => exact ⟨fun i hi => by simp at hi, fun _ _ => rfl⟩
  | cons v l ih =>
    rw [List.length_cons] at h
    have hnext : (s.pushArg v).stk.toNat = s.stk.toNat + 4 := by
      rw [pushArg, BitVec.toNat_add]
      exact Nat.mod_eq_of_lt (show s.stk.toNat + 4 < 2 ^ 32 by omega)
    obtain ⟨hw, hout⟩ := ih (s.pushArg v) (by omega)
    rw [hnext] at hw hout
    refine ⟨?_, fun x hx => ?_⟩
    · have hcons : v :: l = [v] ++ l := rfl
      rw [List.foldl_cons, hcons, ByteMem.hasWords_append]
      refine ⟨fun i hi => ?_, hw⟩
      obtain rfl : i = 0 := by simpa using hi
      rw [Nat.mul_zero, Nat.add_zero, List.getElem_singleton]
      have hload : ((l.foldl pushArg (s.pushArg v)).mem.load s.stk.toNat 4 : BitVec 32) =
          (s.pushArg v).mem.load s.stk.toNat 4 :=
        ByteMem.load_congr fun x _ hx => hout x (by omega)
      rw [hload]
      exact CPUState.load_store_word _ _ _
    · rw [List.length_cons] at hx
      rw [List.foldl_cons, hout x (by omega)]
      exact ByteMem.store_apply_of_notMem v (by omega)

end ArgStack

/-- The tables are the words of `tableWords` in turn. -/
lemma pushTables_eq (host : HostIds) (elf : ElfImage) (fixed : FixedStrings)
    (argvPtrs : List (BitVec 32)) (s : ArgStack) :
    pushTables host elf fixed argvPtrs s =
      ((tableWords host elf fixed argvPtrs).foldl ArgStack.pushArg s).mem := by
  set s1 := s.pushArg (.ofNat 32 argvPtrs.length) with h1
  set s2 := (argvPtrs.foldl ArgStack.pushArg s1).pushArg 0 with h2
  set s3 := (s2.pushArg fixed.lc_all_str_g).pushArg 0 with h3
  have hargv : s1.stk = s.stk + 4 := rfl
  have henvp : s2.stk = s.stk + 4 + .ofNat 32 (4 * (argvPtrs.length + 1)) := by
    rw [h2, ArgStack.pushArg, ArgStack.stk_foldl_pushArg, hargv, Nat.mul_add, BitVec.ofNat_add,
      BitVec.add_assoc]
    rfl
  have hauxv : s3.stk = s.stk + 4 + .ofNat 32 (4 * (argvPtrs.length + 1)) +
      .ofNat 32 (4 * (envp_n + 1)) := by
    rw [← henvp, h3, ArgStack.pushArg, ArgStack.pushArg, BitVec.add_assoc]
    rfl
  have hwords : (tableWords host elf fixed argvPtrs).foldl ArgStack.pushArg s =
      (auxv host elf fixed.auxv_salt_g fixed.foo_str_g).foldl ArgStack.pushAuxv s3 := by
    simp only [tableWords, List.foldl_append, List.foldl_cons, List.foldl_nil,
      ArgStack.foldl_pushAuxv, h1, h2, h3]
  have hmk : ∀ (t : ArgStack) (a : BitVec 32), a = t.stk → (⟨a, t.mem⟩ : ArgStack) = t := by
    rintro t a rfl
    rfl
  rw [hwords, pushTables]
  rw [hmk s _ rfl, ← h1, hmk s1 _ hargv.symm, ← h2, hmk s2 _ henvp.symm, ← h3,
    hmk s3 _ hauxv.symm]

/-! ### The strings -/

namespace ArgStack

variable {s : ArgStack} {str : CString} {argv : List CString}

/-- The number of bytes that are copied of a string. -/
def copySize (str : CString) : ℕ := (str.strlen + 1) % 2 ^ 16

lemma allocBytes_spec {bytes : List (BitVec 8)} {sz : BitVec 16} (hlen : sz.toNat ≤ bytes.length)
    (hstk : sz.toNat ≤ s.stk.toNat) :
    (s.allocBytes bytes sz).stk.toNat = s.stk.toNat - sz.toNat ∧
      (s.allocBytes bytes sz).mem.HasBytes (s.allocBytes bytes sz).stk.toNat
        (bytes.take sz.toNat) ∧
      ∀ x, s.stk.toNat ≤ x → (s.allocBytes bytes sz).mem x = s.mem x := by
  have hsz : (sz.setWidth 32).toNat = sz.toNat := by
    rw [BitVec.toNat_setWidth]
    exact Nat.mod_eq_of_lt (by omega)
  have hsub : (s.stk - sz.setWidth 32).toNat = s.stk.toNat - sz.toNat := by
    rw [BitVec.toNat_sub_of_le (by rw [BitVec.le_def, hsz]; exact hstk), hsz]
  refine ⟨hsub, ByteMem.hasBytes_storeBytes _ _ _, fun x hx => ?_⟩
  refine ByteMem.storeBytes_of_notMem _ (Or.inr ?_)
  rw [hsub, List.length_take_of_le hlen]
  omega

variable (s str) in
lemma allocStr_spec (hstk : copySize str ≤ s.stk.toNat) :
    (s.allocStr str).stk.toNat = s.stk.toNat - copySize str ∧
      (s.allocStr str).mem.HasBytes (s.allocStr str).stk.toNat
        (str.bytes.take (copySize str)) ∧
      ∀ x, s.stk.toNat ≤ x → (s.allocStr str).mem x = s.mem x := by
  have hsz : (BitVec.ofNat 16 (str.strlen + 1)).toNat = copySize str := BitVec.toNat_ofNat _ _
  rw [← hsz] at hstk ⊢
  refine allocBytes_spec ?_ hstk
  rw [hsz, str.length_bytes]
  exact Nat.mod_le _ _

/-- A string that is short enough is copied whole. -/
lemma take_copySize (h : str.strlen + 1 < 2 ^ 16) :
    copySize str = str.strlen + 1 ∧ str.bytes.take (copySize str) = str.bytes := by
  have hsz : copySize str = str.strlen + 1 := Nat.mod_eq_of_lt h
  exact ⟨hsz, by rw [hsz, ← str.length_bytes, List.take_length]⟩

/-- The bytes that the strings of a vector take. -/
def totalSize (argv : List CString) : ℕ := (argv.map fun str => str.strlen + 1).sum

lemma totalSize_cons (str : CString) (argv : List CString) :
    totalSize (str :: argv) = str.strlen + 1 + totalSize argv := rfl

lemma copySize_le (str : CString) : copySize str ≤ str.strlen + 1 := Nat.mod_le _ _

variable (s argv) in
/-- Where the strings of a vector go: below what is on the stack, which stays. -/
lemma allocArgv_frame (hstk : totalSize argv ≤ s.stk.toNat) :
    (allocArgv argv s).1.length = argv.length ∧
      s.stk.toNat ≤ (allocArgv argv s).2.stk.toNat + totalSize argv ∧
      (allocArgv argv s).2.stk.toNat ≤ s.stk.toNat ∧
      ∀ x, s.stk.toNat ≤ x → (allocArgv argv s).2.mem x = s.mem x := by
  induction argv generalizing s with
  | nil => exact ⟨rfl, Nat.le_add_right _ _, le_rfl, fun _ _ => rfl⟩
  | cons str argv ih =>
    rw [totalSize_cons] at hstk ⊢
    have hle := copySize_le str
    obtain ⟨h1, -, h3⟩ := allocStr_spec s str (by omega)
    obtain ⟨i1, i2, i3, i4⟩ := ih (s := s.allocStr str) (by omega)
    simp only [allocArgv]
    refine ⟨by simp [i1], by omega, by omega, fun x hx => ?_⟩
    rw [i4 x (by omega), h3 x hx]

/-- The place of a string on the stack. -/
def strRange (e : BitVec 32 × CString) : ℕ × ℕ := (e.1.toNat, e.2.strlen + 1)

/-- A list of ranges, each of which ends where the ones before it begin or below. -/
def Descending (ranges : List (ℕ × ℕ)) : Prop :=
  ranges.Pairwise fun r r' => r'.1 + r'.2 ≤ r.1

/-- Strings that are short enough are copied whole, one below the other. -/
lemma allocArgv_short (hstk : totalSize argv ≤ s.stk.toNat)
    (hshort : ∀ str ∈ argv, str.strlen + 1 < 2 ^ 16) :
    List.Forall₂ (fun p str => (allocArgv argv s).2.mem.HasBytes p.toNat str.bytes)
        (allocArgv argv s).1 argv ∧
      Descending (((allocArgv argv s).1.zip argv).map strRange) ∧
      ∀ r ∈ ((allocArgv argv s).1.zip argv).map strRange,
        (allocArgv argv s).2.stk.toNat ≤ r.1 ∧ r.1 + r.2 ≤ s.stk.toNat := by
  induction argv generalizing s with
  | nil => exact ⟨.nil, .nil, fun r hr => by simp [allocArgv] at hr⟩
  | cons str argv ih =>
    rw [totalSize_cons] at hstk
    obtain ⟨hsz, htake⟩ := take_copySize (hshort str List.mem_cons_self)
    obtain ⟨h1, h2, -⟩ := allocStr_spec s str (by omega)
    rw [htake] at h2
    obtain ⟨-, -, f3, f4⟩ := allocArgv_frame (s.allocStr str) argv (by omega)
    obtain ⟨i1, i2, i3⟩ := ih (s := s.allocStr str) (by omega)
      fun str hm => hshort str (List.mem_cons_of_mem _ hm)
    simp only [allocArgv, List.zip_cons_cons, List.map_cons]
    refine ⟨.cons (h2.congr fun x hx _ => f4 x hx) i1, List.pairwise_cons.mpr
      ⟨fun r hr => (i3 r hr).2, i2⟩, fun r hr => ?_⟩
    rcases List.mem_cons.mp hr with rfl | hr
    · simp only [strRange]
      exact ⟨f3, by omega⟩
    · have := i3 r hr
      exact ⟨this.1, by omega⟩

/-- There is a null byte close above the end of the stack. -/
def NulNear (s : ArgStack) : Prop := ∃ k, k + 1 < 2 ^ 16 ∧ s.mem (s.stk.toNat + k) = 0

lemma nulNear_allocStr (hstk : copySize str ≤ s.stk.toNat) (h : str.strlen + 1 < 2 ^ 16) :
    NulNear (s.allocStr str) := by
  obtain ⟨-, h2, -⟩ := allocStr_spec s str hstk
  rw [(take_copySize h).2] at h2
  have hlt : str.strlen < str.bytes.length := by
    rw [str.length_bytes]
    omega
  refine ⟨str.strlen, h, ?_⟩
  rw [h2 str.strlen hlt]
  simp [CString.bytes, CString.strlen]

/-- A string that is too long runs into what lies above it. -/
lemma not_hasBytes_allocStr (hstk : copySize str ≤ s.stk.toNat) (h : 2 ^ 16 ≤ str.strlen + 1)
    (hnul : NulNear s) {m : ByteMem}
    (hm : ∀ x, (s.allocStr str).stk.toNat ≤ x → m x = (s.allocStr str).mem x) :
    ¬ m.HasBytes (s.allocStr str).stk.toNat str.bytes := by
  intro hbytes
  obtain ⟨k, hk, h0⟩ := hnul
  obtain ⟨h1, -, h3⟩ := allocStr_spec s str hstk
  have hlt : copySize str + k < str.strlen := by
    have hdiv := Nat.div_add_mod (str.strlen + 1) (2 ^ 16)
    have hpos : 1 ≤ (str.strlen + 1) / 2 ^ 16 := Nat.div_pos h (by norm_num)
    simp only [copySize]
    omega
  have hlen := str.length_bytes
  refine str.getElem_bytes_ne_zero hlt (by omega) ?_
  rw [← hbytes (copySize str + k) (by omega), hm _ (Nat.le_add_right _ _), h3 _ (by omega), ← h0]
  congr 1
  omega

/-- A vector with a string that is too long is not copied. -/
lemma not_forall_allocArgv (hstk : totalSize argv ≤ s.stk.toNat) (hnul : NulNear s)
    (hlong : ∃ str ∈ argv, 2 ^ 16 ≤ str.strlen + 1) {m : ByteMem}
    (hm : ∀ x, (allocArgv argv s).2.stk.toNat ≤ x → m x = (allocArgv argv s).2.mem x) :
    ¬ List.Forall₂ (fun p str => m.HasBytes p.toNat str.bytes) (allocArgv argv s).1 argv := by
  induction argv generalizing s with
  | nil =>
    obtain ⟨str, hstr, -⟩ := hlong
    cases hstr
  | cons str argv ih =>
    rw [totalSize_cons] at hstk
    have hle := copySize_le str
    obtain ⟨h1, -, -⟩ := allocStr_spec s str (by omega)
    obtain ⟨-, -, f3, f4⟩ := allocArgv_frame (s.allocStr str) argv (by omega)
    rintro (_ | ⟨hfirst, hrest⟩)
    by_cases hshort : str.strlen + 1 < 2 ^ 16
    · refine ih (by omega) (nulNear_allocStr (by omega) hshort) ?_ hm hrest
      obtain ⟨str', hstr', hlong'⟩ := hlong
      rcases List.mem_cons.mp hstr' with rfl | hmem
      · omega
      · exact ⟨str', hmem, hlong'⟩
    · refine not_hasBytes_allocStr (by omega) (by omega) hnul (m := m) (fun x hx => ?_) hfirst
      rw [← f4 x hx]
      exact hm x (f3.trans hx)

end ArgStack

/-! ### The layout -/

/-- The bytes of the strings that are copied before the arguments. -/
def fixedSize : ℕ := fooStr.strlen + 1 + (lcAllStr.strlen + 1) + auxvSalt.length

/-- Where the tables start when all strings are copied whole. -/
def stackBottom (top : ℕ) (argv : List CString) : ℤ :=
  ((top - fixedSize - ArgStack.totalSize argv) / 4 * 4 -
    4 * (argv.length + envp_n + auxv_n + 3)) / 16 * 16

/-- The strings and the tables fit in the stack mapping from `base` to `top`. -/
def Fits (base top : ℕ) (argv : List CString) : Prop := base ≤ stackBottom top argv

/-- Clearing the low bits of a word. -/
lemma toNat_and_mask (x : BitVec 32) {mask : BitVec 32} {k : ℕ}
    (hmask : ∀ i < 32, mask.getLsbD i = decide (k ≤ i)) :
    (x &&& mask).toNat = x.toNat / 2 ^ k * 2 ^ k := by
  have hand : x &&& mask = (x >>> k) <<< k := by
    refine BitVec.eq_of_getLsbD_eq fun i hi => ?_
    rw [BitVec.getLsbD_and, hmask i hi, BitVec.getLsbD_shiftLeft, BitVec.getLsbD_ushiftRight]
    by_cases h : k ≤ i
    · simp [hi, h, show ¬ i < k by omega]
    · simp [h, show i < k by omega]
  have hle := Nat.div_mul_le_self x.toNat (2 ^ k)
  rw [hand, BitVec.toNat_shiftLeft, BitVec.toNat_ushiftRight, Nat.shiftRight_eq_div_pow,
    Nat.shiftLeft_eq, Nat.mod_eq_of_lt (Nat.lt_of_le_of_lt hle x.isLt)]

lemma toNat_and_not (x : BitVec 32) :
    (x &&& ~~~3#32).toNat = x.toNat / 4 * 4 ∧ (x &&& ~~~15#32).toNat = x.toNat / 16 * 16 :=
  ⟨toNat_and_mask x (k := 2) (by decide), toNat_and_mask x (k := 4) (by decide)⟩

lemma toNat_tableStart {stk : BitVec 32} {n : ℕ} (h : 4 * (n + 68) ≤ stk.toNat / 4 * 4) :
    (tableStart stk n).toNat = (stk.toNat / 4 * 4 - 4 * (n + 68)) / 16 * 16 := by
  have hlt := stk.isLt
  have hn : (BitVec.ofNat 32 ((n + envp_n + auxv_n + 3) * 4)).toNat = 4 * (n + 68) := by
    rw [BitVec.toNat_ofNat, Nat.mod_eq_of_lt (by simp only [envp_n, auxv_n]; omega)]
    simp only [envp_n, auxv_n]
    omega
  rw [tableStart, (toNat_and_not _).2, BitVec.toNat_sub_of_le, (toNat_and_not _).1, hn]
  rw [BitVec.le_def, (toNat_and_not _).1, hn]
  exact h

variable {host : HostIds} {elf : ElfImage} {argv : List CString} {mem m : ByteMem} {base top : ℕ}

/-- The state after the strings. -/
def afterStrings (elf : ElfImage) (argv : List CString) (mem : ByteMem) : ArgStack :=
  (ArgStack.allocArgv argv (allocFixed ⟨elf.stack_start, mem⟩).rest).2

lemma fixedSize_eq : fixedSize = 37 := rfl

/-- What is known of the strings that are copied first. -/
lemma allocFixed_spec (elf : ElfImage) (mem : ByteMem) (h : fixedSize ≤ elf.stack_start.toNat) :
    let fixed := allocFixed ⟨elf.stack_start, mem⟩
    fixed.foo_str_g.toNat + 12 = elf.stack_start.toNat ∧
      fixed.lc_all_str_g.toNat + 9 = fixed.foo_str_g.toNat ∧
      fixed.auxv_salt_g.toNat + 16 = fixed.lc_all_str_g.toNat ∧
      fixed.rest.stk = fixed.auxv_salt_g ∧
      fixed.rest.mem.HasBytes fixed.foo_str_g.toNat fooStr.bytes ∧
      fixed.rest.mem.HasBytes fixed.lc_all_str_g.toNat lcAllStr.bytes ∧
      fixed.rest.mem.HasBytes fixed.auxv_salt_g.toNat auxvSalt := by
  rw [fixedSize_eq] at h
  simp only [allocFixed]
  set s0 : ArgStack := ⟨elf.stack_start, mem⟩ with h0
  have hs0 : s0.stk.toNat = elf.stack_start.toNat := rfl
  obtain ⟨a1, a2, -⟩ := ArgStack.allocStr_spec s0 fooStr
    (show 12 ≤ s0.stk.toNat by omega)
  rw [show ArgStack.copySize fooStr = 12 from rfl] at a1
  rw [show fooStr.bytes.take (ArgStack.copySize fooStr) = fooStr.bytes from rfl] at a2
  generalize s0.allocStr fooStr = s1 at a1 a2 ⊢
  obtain ⟨b1, b2, b3⟩ := ArgStack.allocStr_spec s1 lcAllStr
    (show 9 ≤ s1.stk.toNat by omega)
  rw [show ArgStack.copySize lcAllStr = 9 from rfl] at b1
  rw [show lcAllStr.bytes.take (ArgStack.copySize lcAllStr) = lcAllStr.bytes from rfl] at b2
  generalize s1.allocStr lcAllStr = s2 at b1 b2 b3 ⊢
  obtain ⟨c1, c2, c3⟩ := ArgStack.allocBytes_spec (s := s2)
    (show (16 : BitVec 16).toNat ≤ auxvSalt.length by decide) (show 16 ≤ s2.stk.toNat by omega)
  rw [show (16 : BitVec 16).toNat = 16 from rfl] at c1
  generalize s2.allocBytes auxvSalt 16 = s3 at c1 c2 c3 ⊢
  refine ⟨by omega, by omega, by omega, trivial, ?_, b2.congr fun x hx _ => c3 x hx, c2⟩
  exact a2.congr fun x hx _ => by rw [c3 x (by omega), b3 x hx]

/-! ### What the guest finds -/

/-- The objects on the initial stack: the pointers in the tables and the auxiliary vector. -/
structure ArgTables where
  argvPtrs : List (BitVec 32)
  lc_all_str_g : BitVec 32
  auxv_salt_g : BitVec 32
  foo_str_g : BitVec 32
  auxv : List (BitVec 32 × BitVec 32)

namespace ArgTables

/-- The tables of the initial stack, word by word. -/
def words (t : ArgTables) : List (BitVec 32) :=
  .ofNat 32 t.argvPtrs.length :: t.argvPtrs ++ [0] ++ [t.lc_all_str_g, 0] ++
    t.auxv.flatMap fun e => [e.1, e.2]

/-- The places of the strings and of the tables. -/
def ranges (t : ArgTables) (sp : ℕ) (argv : List CString) : List (ℕ × ℕ) :=
  [(t.foo_str_g.toNat, fooStr.strlen + 1), (t.lc_all_str_g.toNat, lcAllStr.strlen + 1),
    (t.auxv_salt_g.toNat, auxvSalt.length)] ++ (t.argvPtrs.zip argv).map ArgStack.strRange ++
    [(sp, 4 * t.words.length)]

end ArgTables

/-- Two ranges have no byte in common. -/
def DisjointRanges (r r' : ℕ × ℕ) : Prop := r.1 + r.2 ≤ r'.1 ∨ r'.1 + r'.2 ≤ r.1

/-- The memory presents the arguments at `sp`, on the stack from `base` to `top`. -/
structure Presents (m : ByteMem) (sp base top : ℕ) (argv : List CString) (t : ArgTables) :
    Prop where
  aligned : 16 ∣ sp
  argc : t.argvPtrs.length = argv.length ∧ argv.length < 2 ^ 31
  tables : m.HasWords sp t.words
  args : List.Forall₂ (fun p str => m.HasBytes p.toNat str.bytes) t.argvPtrs argv
  env : m.HasBytes t.lc_all_str_g.toNat lcAllStr.bytes
  auxEnd : ∃ l v, t.auxv = l ++ [(AT_NULL, v)] ∧ ∀ e ∈ l, e.1 ≠ AT_NULL
  random : m.HasBytes t.auxv_salt_g.toNat auxvSalt
  execfn : m.HasBytes t.foo_str_g.toNat fooStr.bytes
  disjoint : (t.ranges sp argv).Pairwise DisjointRanges
  inside : ∀ r ∈ t.ranges sp argv, base ≤ r.1 ∧ r.1 + r.2 ≤ top

/-- The tables that the code builds. -/
def builtTables (host : HostIds) (elf : ElfImage) (argv : List CString) (mem : ByteMem) :
    ArgTables :=
  let fixed := allocFixed ⟨elf.stack_start, mem⟩
  { argvPtrs := (ArgStack.allocArgv argv fixed.rest).1
    lc_all_str_g := fixed.lc_all_str_g
    auxv_salt_g := fixed.auxv_salt_g
    foo_str_g := fixed.foo_str_g
    auxv := auxv host elf fixed.auxv_salt_g fixed.foo_str_g }

/-- What is known of the initial stack, however long the strings are. -/
structure Built (m : ByteMem) (sp base : ℕ) (stk : ArgStack) (t : ArgTables) : Prop where
  aligned : 16 ∣ sp
  base_le : base ≤ sp
  length : t.argvPtrs.length < 2 ^ 30
  tables : m.HasWords sp t.words
  below : sp + 4 * t.words.length ≤ stk.stk.toNat
  above : ∀ x, stk.stk.toNat ≤ x → m x = stk.mem x

lemma Fits.totalSize_le (h : Fits base top argv) :
    fixedSize + ArgStack.totalSize argv ≤ top ∧
      ∀ stk, top ≤ stk + fixedSize + ArgStack.totalSize argv →
        4 * (argv.length + 68) ≤ stk / 4 * 4 ∧
          base ≤ (stk / 4 * 4 - 4 * (argv.length + 68)) / 16 * 16 := by
  simp only [Fits, stackBottom, envp_n, auxv_n] at h
  constructor
  · omega
  · intro stk hstk
    omega

lemma initArgVectors_mem (host : HostIds) (elf : ElfImage) (argv : List CString)
    (mem : ByteMem) :
    (initArgVectors host elf argv mem).2 =
      ((builtTables host elf argv mem).words.foldl ArgStack.pushArg
        ⟨tableStart (afterStrings elf argv mem).stk argv.length,
          (afterStrings elf argv mem).mem⟩).mem := by
  simp only [initArgVectors, builtTables, afterStrings, ArgTables.words]
  generalize allocFixed ⟨elf.stack_start, mem⟩ = fixed
  exact pushTables_eq host elf fixed _ _

variable (host argv mem) in
lemma built (h : Fits base elf.stack_start.toNat argv) :
    Built (initArgVectors host elf argv mem).2
      (initArgVectors host elf argv mem).1.stack_start.toNat base (afterStrings elf argv mem)
      (builtTables host elf argv mem) := by
  obtain ⟨hle, hroom⟩ := h.totalSize_le
  obtain ⟨h1, h2, h3, h4, -⟩ := allocFixed_spec elf mem (by omega)
  have h5 : (allocFixed ⟨elf.stack_start, mem⟩).rest.stk.toNat + fixedSize =
      elf.stack_start.toNat := by
    rw [h4, fixedSize_eq]
    omega
  obtain ⟨f1, f2, f3, -⟩ := ArgStack.allocArgv_frame
    (allocFixed ⟨elf.stack_start, mem⟩).rest argv (by omega)
  obtain ⟨hroom1, hroom2⟩ := hroom (afterStrings elf argv mem).stk.toNat (by
    rw [afterStrings]
    omega)
  have hlt := (afterStrings elf argv mem).stk.isLt
  have hsp := toNat_tableStart hroom1
  have hlen : (builtTables host elf argv mem).words.length = argv.length + 38 := by
    simp [ArgTables.words, builtTables, f1, auxv]
  have hstart : (initArgVectors host elf argv mem).1.stack_start =
      tableStart (afterStrings elf argv mem).stk argv.length := rfl
  have hmem : (initArgVectors host elf argv mem).2 =
      ((builtTables host elf argv mem).words.foldl ArgStack.pushArg
        ⟨tableStart (afterStrings elf argv mem).stk argv.length,
          (afterStrings elf argv mem).mem⟩).mem :=
    initArgVectors_mem host elf argv mem
  obtain ⟨hw, hout⟩ := ArgStack.mem_foldl_pushArg (builtTables host elf argv mem).words
    ⟨tableStart (afterStrings elf argv mem).stk argv.length, (afterStrings elf argv mem).mem⟩
    (by simp only [hlen, hsp]; omega)
  rw [hstart, hmem]
  simp only [hsp, hlen] at hw hout ⊢
  refine ⟨Nat.dvd_mul_left _ _, hroom2, ?_, hw, by omega, fun x hx => hout x (by omega)⟩
  rw [show (builtTables host elf argv mem).argvPtrs.length = argv.length from f1]
  omega

lemma initThread_eq (cpu : ByteMem) (h : 16 ∣ elf.stack_start.toNat) :
    ∃ cpu', initThread cpu elf = some cpu' ∧ CPUState.gpr cpu' 2 = elf.stack_start := by
  have hand : elf.stack_start &&& 15 = 0 := by
    refine BitVec.eq_of_toNat_eq ?_
    rw [BitVec.toNat_and]
    exact (Nat.and_two_pow_sub_one_eq_mod elf.stack_start.toNat 4).trans
      (Nat.mod_eq_zero_of_dvd h)
  refine ⟨_, by rw [initThread, if_neg (not_not.mpr hand)], ?_⟩
  rw [CPUState.gpr_setIp _ (by norm_num), CPUState.gpr_setGpr_same]

lemma hasWords_unique {a : ℕ} {l l' : List (BitVec 32)} (h : m.HasWords a l)
    (h' : m.HasWords a l') (hlen : l.length = l'.length) : l = l' := by
  refine List.ext_getElem hlen fun i hi hi' => ?_
  rw [← h i hi, ← h' i hi']

/-- The pointers to the arguments are those in the tables. -/
lemma argvPtrs_unique {sp : ℕ} {t t' : ArgTables} (h : m.HasWords sp t.words)
    (h' : m.HasWords sp t'.words) (hlen : t.argvPtrs.length = t'.argvPtrs.length) :
    t.argvPtrs = t'.argvPtrs := by
  have hw : ∀ u : ArgTables, u.words = (.ofNat 32 u.argvPtrs.length :: u.argvPtrs) ++
      ([0] ++ [u.lc_all_str_g, 0] ++ u.auxv.flatMap fun e => [e.1, e.2]) := fun u => by
    simp [ArgTables.words]
  rw [hw, ByteMem.hasWords_append] at h h'
  have := hasWords_unique h.1 h'.1 (by simp [hlen])
  exact (List.cons.inj this).2

lemma nulNear_allocFixed (h : fixedSize ≤ elf.stack_start.toNat) :
    (allocFixed ⟨elf.stack_start, mem⟩).rest.NulNear := by
  obtain ⟨-, -, -, h4, -, -, h7⟩ := allocFixed_spec elf mem h
  refine ⟨0, by norm_num, ?_⟩
  rw [h4]
  exact h7 0 (by decide)

/-- A vector with a string that is too long is not presented. -/
lemma not_presents (hfit : Fits base elf.stack_start.toNat argv)
    (hlong : ∃ str ∈ argv, 2 ^ 16 ≤ str.strlen + 1) (t : ArgTables) :
    ¬ Presents (initArgVectors host elf argv mem).2
      (initArgVectors host elf argv mem).1.stack_start.toNat base elf.stack_start.toNat argv t := by
  intro hp
  obtain ⟨hle, -⟩ := hfit.totalSize_le
  have hb := built host argv mem hfit
  obtain ⟨h1, h2, h3, h4, -⟩ := allocFixed_spec elf mem (by omega)
  have h5 : ArgStack.totalSize argv ≤ (allocFixed ⟨elf.stack_start, mem⟩).rest.stk.toNat := by
    rw [h4]
    rw [fixedSize_eq] at hle
    omega
  obtain ⟨f1, -⟩ := ArgStack.allocArgv_frame _ _ h5
  have hptrs := argvPtrs_unique hp.tables hb.tables (hp.argc.1.trans f1.symm)
  refine ArgStack.not_forall_allocArgv h5 (nulNear_allocFixed (by omega)) hlong hb.above ?_
  rw [show (ArgStack.allocArgv argv (allocFixed ⟨elf.stack_start, mem⟩).rest).1 = t.argvPtrs from
    hptrs.symm]
  exact hp.args

lemma auxv_end (host : HostIds) (elf : ElfImage) (auxv_salt_g foo_str_g : BitVec 32) :
    ∃ l v, auxv host elf auxv_salt_g foo_str_g = l ++ [(AT_NULL, v)] ∧ ∀ e ∈ l, e.1 ≠ AT_NULL :=
  ⟨(auxv host elf auxv_salt_g foo_str_g).dropLast, 0, rfl, by simp [auxv, AT_NULL]⟩

/-- Strings that are short enough are presented. -/
lemma presents (hfit : Fits base elf.stack_start.toNat argv)
    (hshort : ∀ str ∈ argv, str.strlen + 1 < 2 ^ 16) :
    Presents (initArgVectors host elf argv mem).2
      (initArgVectors host elf argv mem).1.stack_start.toNat base elf.stack_start.toNat argv
      (builtTables host elf argv mem) := by
  obtain ⟨hle, -⟩ := hfit.totalSize_le
  have hb := built host argv mem hfit
  obtain ⟨h1, h2, h3, h4, h5, h6, h7⟩ := allocFixed_spec elf mem (by omega)
  rw [fixedSize_eq] at hle
  have hs : (allocFixed ⟨elf.stack_start, mem⟩).rest.stk.toNat =
      (allocFixed ⟨elf.stack_start, mem⟩).auxv_salt_g.toNat := by rw [h4]
  obtain ⟨f1, f2, f3, f4⟩ := ArgStack.allocArgv_frame
    (allocFixed ⟨elf.stack_start, mem⟩).rest argv (by omega)
  obtain ⟨g1, g2, g3⟩ := ArgStack.allocArgv_short
    (s := (allocFixed ⟨elf.stack_start, mem⟩).rest) (by omega) hshort
  -- the strings stay as they are when the tables are written
  have hbelow := hb.below
  have hbase := hb.base_le
  have habove := hb.above
  have hlen := hb.length
  simp only [afterStrings] at hbelow habove
  have hkeep : ∀ a l, (allocFixed ⟨elf.stack_start, mem⟩).rest.mem.HasBytes a l →
      (allocFixed ⟨elf.stack_start, mem⟩).rest.stk.toNat ≤ a →
      (initArgVectors host elf argv mem).2.HasBytes a l := by
    intro a l hl ha
    exact hl.congr fun x hx _ => by rw [habove x (by omega), f4 x (by omega)]
  have hfixed : ∀ r ∈ [((allocFixed ⟨elf.stack_start, mem⟩).foo_str_g.toNat, fooStr.strlen + 1),
      ((allocFixed ⟨elf.stack_start, mem⟩).lc_all_str_g.toNat, lcAllStr.strlen + 1),
      ((allocFixed ⟨elf.stack_start, mem⟩).auxv_salt_g.toNat, auxvSalt.length)],
      (allocFixed ⟨elf.stack_start, mem⟩).rest.stk.toNat ≤ r.1 ∧
        r.1 + r.2 ≤ elf.stack_start.toNat := by
    simp only [List.mem_cons, List.not_mem_nil, or_false, forall_eq_or_imp, forall_eq]
    simp only [show fooStr.strlen = 11 from rfl, show lcAllStr.strlen = 8 from rfl,
      show auxvSalt.length = 16 from rfl]
    omega
  refine ⟨hb.aligned, ⟨f1, by rw [← f1]; exact hlen.trans (by norm_num)⟩, hb.tables, ?_,
    hkeep _ _ h6 (by rw [hs]; simp only [builtTables]; omega), auxv_end _ _ _ _,
    hkeep _ _ h7 (by rw [hs]; simp only [builtTables]; omega),
    hkeep _ _ h5 (by rw [hs]; simp only [builtTables]; omega), ?_, ?_⟩
  · rw [List.forall₂_iff_zip] at g1 ⊢
    refine ⟨g1.1, fun hmem => (g1.2 hmem).congr fun x hx _ => habove x ?_⟩
    exact (g3 _ (List.mem_map_of_mem hmem)).1.trans hx
  · rw [ArgTables.ranges, List.pairwise_append, List.pairwise_append]
    refine ⟨⟨?_, g2.imp Or.inr, fun r hr r' hr' => ?_⟩, List.pairwise_singleton _ _,
      fun r hr r' hr' => ?_⟩
    · simp only [List.pairwise_cons, List.mem_cons, List.not_mem_nil, or_false, forall_eq_or_imp,
        forall_eq, DisjointRanges, builtTables, show fooStr.strlen = 11 from rfl,
        show lcAllStr.strlen = 8 from rfl, show auxvSalt.length = 16 from rfl]
      refine ⟨⟨?_, ?_⟩, ?_, fun _ h => absurd h (by simp), .nil⟩ <;> omega
    · exact Or.inr ((g3 r' hr').2.trans (hfixed r hr).1)
    · obtain rfl := List.mem_singleton.mp hr'
      refine Or.inr (hbelow.trans ?_)
      rcases List.mem_append.mp hr with hr | hr
      · exact f3.trans (hfixed r hr).1
      · exact (g3 r hr).1
  · intro r hr
    rw [ArgTables.ranges, List.mem_append, List.mem_append] at hr
    rcases hr with (hr | hr) | hr
    · have := hfixed r hr
      omega
    · have := g3 r hr
      omega
    · obtain rfl := List.mem_singleton.mp hr
      simp only
      omega

/-- If the strings and tables fit on the stack, the guest finds its arguments there if and only
if the size of every string fits in 16 bits. -/
theorem presents_iff (host : HostIds) (elf : ElfImage) (argv : List CString) (mem cpu : ByteMem)
    (base : ℕ) (hfit : Fits base elf.stack_start.toNat argv) :
    (∃ cpu' t, initThread cpu (initArgVectors host elf argv mem).1 = some cpu' ∧
        Presents (initArgVectors host elf argv mem).2 (CPUState.gpr cpu' 2).toNat base
          elf.stack_start.toNat argv t) ↔
      ∀ str ∈ argv, str.strlen + 1 < 2 ^ 16 := by
  obtain ⟨cpu', hcpu, hgpr⟩ := initThread_eq cpu (built host argv mem hfit).aligned
  rw [hcpu]
  constructor
  · rintro ⟨_, t, heq, hp⟩ str hstr
    obtain rfl := Option.some.inj heq
    rw [hgpr] at hp
    by_contra hlong
    exact not_presents hfit ⟨str, hstr, by omega⟩ t hp
  · intro hshort
    refine ⟨cpu', builtTables host elf argv mem, rfl, ?_⟩
    rw [hgpr]
    exact presents hfit hshort

/-- An executable with the stack of `BootElf`. -/
def bootImage : ElfImage :=
  ⟨⟨ELFMAG, ET_EXEC, EM_RISCV, 0x10000, 52, 1⟩, 0x10000, 0xFFFFF000, 0x10000, 0x11000⟩

/-- The numbers of a process of root. -/
def noIds : HostIds := ⟨0, 0, 0, 0, 100⟩

theorem presents_iff_short :
    (∃ cpu' t, initThread (fun _ => 0)
        (initArgVectors noIds bootImage [fooStr, lcAllStr] fun _ => 0).1 = some cpu' ∧
        Presents (initArgVectors noIds bootImage [fooStr, lcAllStr] fun _ => 0).2
          (CPUState.gpr cpu' 2).toNat 0xFF7FF000 bootImage.stack_start.toNat [fooStr, lcAllStr] t) ↔
      ∀ str ∈ [fooStr, lcAllStr], str.strlen + 1 < 2 ^ 16 :=
  presents_iff noIds bootImage [fooStr, lcAllStr] (fun _ => 0) (fun _ => 0) 0xFF7FF000
    (show (0xFF7FF000 : ℤ) ≤ stackBottom 0xFFFFF000 [fooStr, lcAllStr] by decide)

/-- A string of 65535 characters. -/
def longStr : CString :=
  ⟨List.replicate 65535 0x61, fun h => absurd (List.eq_of_mem_replicate h) (by decide)⟩

/-- A single long string fits on the stack and is not presented. -/
theorem not_presents_longStr :
    Fits 0xFF7FF000 bootImage.stack_start.toNat [longStr] ∧
      ¬ ∃ cpu' t, initThread (fun _ => 0)
          (initArgVectors noIds bootImage [longStr] fun _ => 0).1 = some cpu' ∧
        Presents (initArgVectors noIds bootImage [longStr] fun _ => 0).2
          (CPUState.gpr cpu' 2).toNat 0xFF7FF000 bootImage.stack_start.toNat [longStr] t := by
  have hlen : longStr.strlen = 65535 := List.length_replicate
  have hfit : Fits 0xFF7FF000 bootImage.stack_start.toNat [longStr] := by
    have htop : bootImage.stack_start.toNat = 0xFFFFF000 := rfl
    simp only [Fits, stackBottom, fixedSize_eq, ArgStack.totalSize, List.map_cons, List.map_nil,
      List.sum_cons, List.sum_nil, hlen, htop, envp_n, auxv_n, List.length_singleton]
    norm_num
  refine ⟨hfit, ?_⟩
  rintro ⟨cpu', t, hcpu, hp⟩
  obtain ⟨cpu1, h1, hgpr⟩ := initThread_eq (fun _ => 0)
    (built noIds [longStr] (fun _ => 0) hfit).aligned
  rw [h1, Option.some.injEq] at hcpu
  subst hcpu
  rw [hgpr] at hp
  exact not_presents hfit ⟨longStr, List.mem_singleton_self _, by rw [hlen]; norm_num⟩ t hp

end Rv32jit.Env
