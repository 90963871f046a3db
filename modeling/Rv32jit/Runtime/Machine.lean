/-
# The machine

The dispatcher together with the code that it runs: the loop of `Execute`, compiled regions with
their slots, the stubs, and `env::Execute` around the loop.  A run carries the guest instructions
that it has executed.  The instruction pointer in the CPU state is stale inside translated code;
it is right again whenever control is back at the loop.
-/
import Rv32jit.Guest.Reserved
import Rv32jit.Runtime.Dispatch

namespace Rv32jit.Runtime

open Qir Insn CPUState Translate Interp TCache Jit

/-! ### Compiled regions -/

/-- `roundup(ip, mmu::PAGE_SIZE)`, on 32 bits. -/
def roundupPage (ip : BitVec 32) : BitVec 32 := (ip + 0xFFF#32) / 0x1000#32 * 0x1000#32

/-- `GetCompilationIPRange`. -/
def getCompilationIPRange (c : TCache) (ip : BitVec 32) : BitVec 32 × BitVec 32 :=
  let upper := roundupPage ip
  match c.lookupUpperBound ip with
  | some tb_upper => (ip, if tb_upper.ip < upper then tb_upper.ip else upper)
  | none => (ip, upper)

/-- The word of the guest's memory at an address. -/
def word (mem : ByteMem) (a : BitVec 32) : BitVec 32 := mem.load a.toNat 4

/-- A compiled region: the words and the range that it has been compiled from, what the passes have
made of it, and what the assembler has.  A block that leaves for a fixed address does so through
its slot. -/
structure RegionCode where
  prog : BitVec 32 → BitVec 32
  range : BitVec 32 × BitVec 32
  t : Translator
  r : Region
  compiled : compile prog [range] = some (t, r)
  layout : CodeLayout
  nonempty : 0 < layout.code_sz
  slotOf : ℕ → ℕ
  placed : ∀ b blk ins tpc, r.blist[b]? = some blk → ins ∈ blk.ilist → ins.op = .gbr tpc →
    layout.slots.lookup (slotOf b) = some tpc

lemma RegionCode.spec (rc : RegionCode) : Compiled rc.prog [rc.range] rc.t rc.r :=
  compiled_of_compile (List.nodup_singleton _) rc.compiled

lemma RegionCode.translated (rc : RegionCode) :
    Translator.translate rc.prog [rc.range] = some rc.t := translate_of_compile rc.compiled

/-! ### The machine -/

/-- Where control is: at the head of the loop of `Execute`, at the start of a block of a region, at
a slot, or at an indirect branch. -/
inductive Ctl
  | loop (branch_slot : Option ℕ)
  | block (ptr b : ℕ)
  | slot (slot : ℕ)
  | brind (gip : BitVec 32)

/-- The JIT, the code it has generated, the state that this code runs on, and where control is. -/
structure Machine where
  jit : Jit
  /-- The regions in the code pool, by the addresses of their code. -/
  code : ℕ → Option RegionCode
  s : QState
  ctl : Ctl

namespace Machine

/-- Where a block of a region passes control on to. -/
def next (ptr : ℕ) (rc : RegionCode) (b : ℕ) : Outcome → Option Ctl
  | .at b' => some (.block ptr b')
  | .gbr _ => some (.slot (ptr + rc.slotOf b))
  | .gbrind gip => some (.brind gip)
  | .trap => some (.loop none)
  | .stuck => none

/-- `SyscallLinux` with the result `rc`, if it does not terminate the process. -/
def syscallLinux (cpu : ByteMem) (rc : BitVec 32) : ByteMem := setGpr (setTrapno cpu .NONE) 10 rc

/-- One step, with the guest instructions that it executes.  What the host registers and the frame
hold at the entry of a region is left open, and so is what a system call does to the memory. -/
inductive Step (env : HelperEnv) : Machine → List Fetch → Machine → Prop
  /-- The body of the loop of `Execute`, for an address that has a block. -/
  | lookup {j : Jit} {code : ℕ → Option RegionCode} {s s' : QState} {branch_slot : Option ℕ}
      {tb : TBlock} {cache : TCache} (hrun : trapno s.cpu = TrapCode.NONE.toBits)
      (hf : j.cache.lookup (ip s.cpu) = (some tb, cache)) (hs : SameState s s') :
      Step env ⟨j, code, s, .loop branch_slot⟩ []
        ⟨{ j with cache := cache }.linkOrCache branch_slot tb, code, s', .block tb.tcode.ptr 0⟩
  /-- The same for an address that has none. -/
  | compile {j j' : Jit} {code : ℕ → Option RegionCode} {s s' : QState} {branch_slot : Option ℕ}
      {tb : TBlock} {cache : TCache} {rc : RegionCode}
      (hrun : trapno s.cpu = TrapCode.NONE.toBits)
      (hf : j.cache.lookup (ip s.cpu) = (none, cache)) (hprog : rc.prog = word s.mem)
      (hrange : rc.range = getCompilationIPRange cache (ip s.cpu))
      (hfit : rc.layout.alloc_sz ≤ CODE_POOL_SIZE)
      (hj : { j with cache := cache }.compilerDoJob (ip s.cpu) rc.layout = some (tb, j'))
      (hs : SameState s s') :
      Step env ⟨j, code, s, .loop branch_slot⟩ []
        ⟨j'.linkOrCache branch_slot tb, Function.update code tb.tcode.ptr (some rc), s',
          .block tb.tcode.ptr 0⟩
  /-- A block of a region. -/
  | block {j : Jit} {code : ℕ → Option RegionCode} {s s' : QState} {ptr b : ℕ} {rc : RegionCode}
      {a : BitVec 32} {fs : List Fetch} {ev : List Event} {out : Outcome} {ctl : Ctl}
      (hcode : code ptr = some rc) (hfs : BlockExecutes rc.prog env rc.t b a s fs)
      (hexec : execBlock env rc.r b s = (ev, out, s')) (hnext : next ptr rc b out = some ctl) :
      Step env ⟨j, code, s, .block ptr b⟩ fs ⟨j, code, s', ctl⟩
  | linked {j : Jit} {code : ℕ → Option RegionCode} {s s' : QState} {slot ptr : ℕ}
      {gip : BitVec 32} (hsl : j.slots slot = some ⟨.jump ptr, gip⟩) (hs : SameState s s') :
      Step env ⟨j, code, s, .slot slot⟩ [] ⟨j, code, s', .block ptr 0⟩
  /-- `TryLinkBranch` that finds the block. -/
  | link {j j' : Jit} {code : ℕ → Option RegionCode} {s s' : QState} {slot ptr : ℕ}
      {gip : BitVec 32} (hsl : j.slots slot = some ⟨.lazyLink, gip⟩)
      (hj : j.tryLinkBranch slot gip = (some ptr, j')) (hs : SameState s s') :
      Step env ⟨j, code, s, .slot slot⟩ [] ⟨j', code, s', .block ptr 0⟩
  /-- `TryLinkBranch` that does not. -/
  | escapeLink {j j' : Jit} {code : ℕ → Option RegionCode} {s s' : QState} {slot : ℕ}
      {gip : BitVec 32} (hsl : j.slots slot = some ⟨.lazyLink, gip⟩)
      (hj : j.tryLinkBranch slot gip = (none, j'))
      (hs : SameState { s with cpu := setIp s.cpu gip } s') :
      Step env ⟨j, code, s, .slot slot⟩ [] ⟨j', code, s', .loop (some slot)⟩
  /-- The sequence of `Emit_gbrind` on a cached target. -/
  | cached {j : Jit} {code : ℕ → Option RegionCode} {s s' : QState} {ptr : ℕ} {gip : BitVec 32}
      (hj : emitGBrind j.cache gip = .code (some ptr)) (hs : SameState s s') :
      Step env ⟨j, code, s, .brind gip⟩ [] ⟨j, code, s', .block ptr 0⟩
  /-- `qcgstub_brind` that finds the block. -/
  | brind {j j' : Jit} {code : ℕ → Option RegionCode} {s s' : QState} {ptr : ℕ} {gip : BitVec 32}
      (hslow : emitGBrind j.cache gip = .slowpath) (hj : j.brind gip = (some ptr, j'))
      (hs : SameState { s with cpu := setIp s.cpu gip } s') :
      Step env ⟨j, code, s, .brind gip⟩ [] ⟨j', code, s', .block ptr 0⟩
  /-- `qcgstub_brind` that does not. -/
  | escapeBrind {j j' : Jit} {code : ℕ → Option RegionCode} {s s' : QState} {gip : BitVec 32}
      (hslow : emitGBrind j.cache gip = .slowpath) (hj : j.brind gip = (none, j'))
      (hs : SameState { s with cpu := setIp s.cpu gip } s') :
      Step env ⟨j, code, s, .brind gip⟩ [] ⟨j', code, s', .loop none⟩
  /-- `env::Execute` on an `ecall`; on an `ebreak` it returns. -/
  | ecall {j : Jit} {code : ℕ → Option RegionCode} {s s' : QState}
      (htrap : trapno s.cpu = TrapCode.ECALL.toBits) (rc : BitVec 32) (mem : ByteMem)
      (hs : SameState
        { s with cpu := syscallLinux (setIp s.cpu (ip s.cpu + 4)) rc, mem := mem } s') :
      Step env ⟨j, code, s, .loop none⟩ [] ⟨j, code, s', .loop none⟩

/-- A guest instruction that has been executed, and the regions that there were at that time. -/
structure Executed extends Fetch where
  code : ℕ → Option RegionCode

/-- A run, with the guest instructions that it has executed. -/
inductive Run (env : HelperEnv) (m₀ : Machine) : List Executed → Machine → Prop
  | nil : Run env m₀ [] m₀
  | step {H : List Executed} {fs : List Fetch} {m m' : Machine} (hrun : Run env m₀ H m)
      (hstep : Step env m fs m') : Run env m₀ (H ++ fs.map (⟨·, m.code⟩)) m'

/-- The start of `env::Execute`. -/
def start (tb_base code_base : ℕ) (s : QState) : Machine :=
  ⟨.init tb_base code_base, fun _ => none, s, .loop none⟩

/-! ### The dispatcher within the machine -/

/-- What the dispatcher sees of the machine. -/
def dispatch (m : Machine) : Dispatch where
  jit := m.jit
  ip := ip m.s.cpu
  ctl := match m.ctl with
    | .loop branch_slot => .loop branch_slot
    | _ => .code

variable {env : HelperEnv} {m m' : Machine} {fs : List Fetch}

/-- The dispatcher makes a step with the machine. -/
lemma Step.dispatch (h : Step env m fs m') : ∃ e, Dispatch.Step m.dispatch e m'.dispatch := by
  have hip : ∀ {s s' : QState}, SameState s s' → ip s'.cpu = ip s.cpu := fun hs => by rw [hs.cpu]
  have hset : ∀ {s s' : QState} {gip : BitVec 32},
      SameState { s with cpu := setIp s.cpu gip } s' → ip s'.cpu = gip := fun hs => by
    rw [hs.cpu, ip_setIp]
  cases h with
  | @lookup j code s s' branch_slot tb cache hrun hf hs =>
    -- what would be compiled does not matter
    have hj : j.findOrCompile (ip s.cpu) ⟨0, 0, [], le_rfl, by simp⟩ =
        some (tb, { j with cache := cache }) := by
      rw [findOrCompile, hf]
    simp only [Machine.dispatch, hip hs]
    exact ⟨_, .execute (Nat.zero_le _) hj⟩
  | @compile j j' code s s' branch_slot tb cache rc hrun hf hprog hrange hfit hj hs =>
    have hj' : j.findOrCompile (ip s.cpu) rc.layout = some (tb, j') := by
      rw [findOrCompile, hf]
      exact hj
    simp only [Machine.dispatch, hip hs]
    exact ⟨_, .execute hfit hj'⟩
  | @block j code s s' ptr b rc a fs ev out ctl hcode hfs hexec hnext =>
    simp only [Machine.dispatch]
    cases out with
    | stuck => cases hnext
    | trap =>
      cases hnext
      exact ⟨_, .trap _⟩
    | _ =>
      cases hnext
      exact ⟨_, .code _⟩
  | linked hsl hs =>
    simp only [Machine.dispatch, hip hs]
    exact ⟨_, .linked hsl⟩
  | link hsl hj hs =>
    simp only [Machine.dispatch, hip hs]
    exact ⟨_, .link hsl hj⟩
  | escapeLink hsl hj hs =>
    simp only [Machine.dispatch, hset hs]
    exact ⟨_, .escapeLink hsl hj⟩
  | cached hj hs =>
    simp only [Machine.dispatch, hip hs]
    exact ⟨_, .cached hj⟩
  | brind hslow hj hs =>
    simp only [Machine.dispatch, hset hs]
    exact ⟨_, .brind hslow hj⟩
  | escapeBrind hslow hj hs =>
    simp only [Machine.dispatch, hset hs]
    exact ⟨_, .escapeBrind hslow hj⟩
  | ecall => exact ⟨_, .env _⟩

/-! ### A program that stores to its own code -/

/-- `sw x5, 12(x0)` at address 4, then `fence.i` and `ecall`; the call is the word that is stored
to. -/
def storeMem : ByteMem :=
  ByteMem.store (ByteMem.store (ByteMem.store (fun _ => 0) 4 4 0x00502623#32) 8 4 0x0000100F#32)
    12 4 0x00000073#32

/-- The start of the program, with the value that is stored. -/
def storeState (v : BitVec 32) : QState where
  vreg _ := 0
  preg _ := 0
  frame _ := 0
  cpu := setIp (setGpr (fun _ => 0) 5 v) 4
  mem := storeMem

lemma compile_storeMem : (compile (word storeMem) [(4, 0x1000)]).isSome := by decide +kernel

/-- The branches to fixed addresses out of the region. -/
def isGbr : Qir.Op → Bool
  | .gbr _ => true
  | _ => false

/-- The memory of a block with 64 bytes of code and no slots. -/
def storeLayout : CodeLayout := ⟨64, 64, [], Nat.le_refl 64, by simp⟩

/-- The region of the program, which leaves for no fixed address. -/
def storeRegion : RegionCode where
  prog := word storeMem
  range := (4, 0x1000)
  t := ((compile (word storeMem) [(4, 0x1000)]).get compile_storeMem).1
  r := ((compile (word storeMem) [(4, 0x1000)]).get compile_storeMem).2
  compiled := (Option.some_get compile_storeMem).symm
  layout := storeLayout
  nonempty := by decide
  slotOf _ := 0
  placed := by
    intro b blk ins tpc hblk hins hop
    have hno : ∀ blk ∈ ((compile (word storeMem) [(4, 0x1000)]).get compile_storeMem).2.blist,
        ∀ ins ∈ blk.ilist, isGbr ins.op = false := by decide +kernel
    have := hno blk (List.mem_of_getElem? hblk) ins hins
    rw [hop] at this
    cases this

/-- Helpers that leave the registers alone. -/
def noOther : RuntimeStubId → BitVec 32 → ByteMem → ByteMem → HelperRes :=
  fun _ _ cpu mem => ⟨cpu, mem, false⟩

/-- Stubs that leave the registers alone. -/
def noClobber : RuntimeStubId → (ℕ → BitVec 32) → ByteMem → ByteMem → ℕ → BitVec 32 :=
  fun _ preg _ _ => preg

/-- Only the stubs that are modelled have an effect. -/
abbrev noHelper : HelperEnv := helperEnv noOther noClobber

lemma blist_storeRegion : storeRegion.t.region.blist[0]? = some
    { ilist := insnCode (family (decode (word storeMem 4))) (word storeMem 4) 4 32 ++
        (insnCode (family (decode (word storeMem (4 + 4)))) (word storeMem (4 + 4)) (4 + 4) 33 ++
          insnCode (family (decode (word storeMem (4 + 4 + 4)))) (word storeMem (4 + 4 + 4))
            (4 + 4 + 4) 33)
      succs := [] } := by
  decide +kernel

/-- The first three instructions of the program. -/
lemma storeRegion_executes (v : BitVec 32) : ∃ s₁ s₂ : QState,
    BlockExecutes storeRegion.prog noHelper storeRegion.t 0 4 (storeState v)
      [fetch storeRegion.prog 4 (storeState v), fetch storeRegion.prog (4 + 4) s₁,
        fetch storeRegion.prog (4 + 4 + 4) s₂] ∧
    s₁.mem = storeMem.store 12 4 v ∧ s₂.mem = storeMem.store 12 4 v := by
  have hvi := storeRegion.spec.globInfo
  have hfind : storeRegion.t.find 4 = some 0 := by decide +kernel
  have htmp : GoodTemp storeRegion.t (word storeMem 4) 32 ∧
      GoodTemp storeRegion.t (word storeMem (4 + 4)) 33 :=
    ⟨⟨by decide, by decide +kernel⟩, ⟨by decide, by decide +kernel⟩⟩
  have hcall : family (decode (word storeMem (4 + 4 + 4))) = .call .rv32_ecall .ECALL := by
    rw [show word storeMem (4 + 4 + 4) = 0x73 by decide +kernel]
    rfl
  have hr : Rel ⟨(storeState v).cpu, 4, storeMem⟩ (storeState v) := by
    refine ⟨.refl _, rfl, ?_⟩
    rw [storeState]
    simp only
    rw [gpr_setIp _ (by decide), gpr_setGpr_of_ne _ (by decide)]
    rfl
  -- the store
  obtain ⟨ev₁, hag₁⟩ := insnCode_agrees noOther noClobber (word storeMem 4)
    (show (family (decode (word storeMem 4))).ends = false by decide +kernel)
    (by decide +kernel) hvi le_rfl hr rfl
  obtain ⟨s₁, hrun₁, hr₁⟩ := hag₁.runs
  have hmem₁ : (Interp.handler (decode (word storeMem 4)) (word storeMem 4)
      ⟨(storeState v).cpu, 4, storeMem⟩).hart.mem = storeMem.store 12 4 v := by
    rw [show word storeMem 4 = 0x00502623#32 by decide +kernel]
    change storeMem.store (gpr (setIp (storeState v).cpu 4) 0 + 12#32).toNat 4
      (gpr (setIp (storeState v).cpu 4) 5) = _
    rw [gpr_setIp _ (by decide), gpr_setIp _ (by decide), hr.x0, storeState]
    simp only
    rw [gpr_setIp _ (by decide), gpr_setGpr_same]
    rfl
  -- the fence
  obtain ⟨ev₂, hag₂⟩ := insnCode_agrees noOther noClobber (word storeMem (4 + 4))
    (show (family (decode (word storeMem (4 + 4)))).ends = false by decide +kernel)
    (by decide +kernel) hvi (show 32 ≤ 33 by decide) hr₁ hag₁.gip
  obtain ⟨s₂, hrun₂, hr₂⟩ := hag₂.runs
  have hmem₂ : s₂.mem = s₁.mem := by
    rw [hr₂.mem, hr₁.mem]
    generalize (Interp.handler (decode (word storeMem 4)) (word storeMem 4)
      ⟨(storeState v).cpu, 4, storeMem⟩).hart = h
    rw [show word storeMem (4 + 4) = 0x0000100F#32 by decide +kernel]
    rfl
  refine ⟨s₁, s₂, Or.inl ⟨3, _, _, hfind, blist_storeRegion, ?_, ?_⟩, hr₁.mem.trans hmem₁,
    hmem₂.trans (hr₁.mem.trans hmem₁)⟩
  · exact .step (by decide +kernel) htmp.1 (.step (by decide +kernel) htmp.2 (.call hcall))
  · exact .step (by decide +kernel) le_rfl hrun₁ (.step (by decide +kernel) (by decide) hrun₂
      (.last (by decide) (.call hcall) (by decide +kernel)))

/-- The program runs up to the call. -/
lemma storeRegion_run (v : BitVec 32)
    (htrap : (execBlock noHelper storeRegion.r 0 (storeState v)).2.1 = .trap) :
    ∃ (code : ℕ → Option RegionCode) (s₁ s₂ : QState) (m : Machine),
      (∀ ptr rc, code ptr = some rc → rc = storeRegion) ∧
      Run noHelper (start 0 0 (storeState v))
        [⟨fetch storeRegion.prog 4 (storeState v), code⟩,
          ⟨fetch storeRegion.prog (4 + 4) s₁, code⟩,
          ⟨fetch storeRegion.prog (4 + 4 + 4) s₂, code⟩] m ∧
      m.ctl = .loop none ∧
      s₁.mem = storeMem.store 12 4 v ∧ s₂.mem = storeMem.store 12 4 v := by
  obtain ⟨s₁, s₂, hexec, h₁, h₂⟩ := storeRegion_executes v
  have hip : ip (storeState v).cpu = 4 := ip_setIp _ _
  have hnone : trapno (storeState v).cpu = TrapCode.NONE.toBits := by
    rw [storeState]
    simp only
    rw [(EqReserved.setIp _ _).trapno, trapno_setGpr _ (by decide)]
    rfl
  have hlook : (Jit.init 0 0).cache.lookup 4 = (none, TCache.init) := rfl
  obtain ⟨tb, j', hj⟩ : ∃ tb j', { Jit.init 0 0 with cache := TCache.init }.compilerDoJob 4
      storeLayout = some (tb, j') := ⟨_, _, rfl⟩
  have hrange : storeRegion.range = getCompilationIPRange TCache.init 4 := by decide +kernel
  have hprog : storeRegion.prog = word (storeState v).mem := rfl
  have hfit : storeRegion.layout.alloc_sz ≤ CODE_POOL_SIZE := by decide
  have hstep : Step noHelper (start 0 0 (storeState v)) []
      ⟨j'.linkOrCache none tb, Function.update (fun _ => none) tb.tcode.ptr (some storeRegion),
        storeState v, .block tb.tcode.ptr 0⟩ :=
    .compile hnone (by rw [hip]; exact hlook) hprog (by rw [hip]; exact hrange) hfit
      (by rw [hip]; exact hj) ⟨rfl, rfl⟩
  have hrun : Run noHelper (start 0 0 (storeState v)) [] _ := Run.nil.step hstep
  obtain ⟨x, hx⟩ : ∃ x, execBlock noHelper storeRegion.r 0 (storeState v) = x := ⟨_, rfl⟩
  obtain ⟨ev, out, s'⟩ := x
  rw [hx] at htrap
  obtain rfl : out = .trap := htrap
  have hrun' := hrun.step (.block (Function.update_self _ _ _) hexec hx rfl)
  refine ⟨_, s₁, s₂, _, fun ptr rc hrc => ?_, hrun', rfl, h₁, h₂⟩
  by_cases hptr : ptr = tb.tcode.ptr
  · subst hptr
    simp only [Function.update_self, Option.some.injEq] at hrc
    exact hrc.symm
  · simp [Function.update_of_ne hptr] at hrc

end Machine

end Rv32jit.Runtime
