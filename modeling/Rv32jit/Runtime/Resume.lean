/-
# The dispatcher resumes at the right address

Each instruction that a run executes is the one that the last one has gone on to, through whatever
blocks, slots, stubs and compilations.  Whenever control is back at the head of the loop and no
trap is pending, the instruction pointer is the address of the next instruction, `x0` is zero and
the slot that the loop holds is one for this address; with a trap pending, it is the address of
the `ecall` or `ebreak` that has raised it.
-/
import Rv32jit.Runtime.Machine

namespace Rv32jit.Runtime

open Qir Insn CPUState Translate Interp TCache Jit

/-! ### Chains of instructions -/

/-- The address of the instruction after this one. -/
def nextOf (f : Fetch) : BitVec 32 := nextIp f.raw f.ip f.cpu

/-- The address of the next instruction, from `a` on after the instructions `fs`. -/
def resume : BitVec 32 → List Fetch → BitVec 32
  | a, [] => a
  | _, f :: fs => resume (nextOf f) fs

/-- Each instruction is the one that the one before it goes on to, and the first is at `a`. -/
def Chained : BitVec 32 → List Fetch → Prop
  | _, [] => True
  | a, f :: fs => f.ip = a ∧ Chained (nextOf f) fs

variable {prog : BitVec 32 → BitVec 32} {env : HelperEnv} {vi : VRegsInfo} {a a' : BitVec 32}
  {s s' : QState} {ev : List Event} {fs fs' : List Fetch} {f : Fetch}
  {other : RuntimeStubId → BitVec 32 → ByteMem → ByteMem → HelperRes}
  {clobber : RuntimeStubId → (ℕ → BitVec 32) → ByteMem → ByteMem → ℕ → BitVec 32}

lemma resume_append (a : BitVec 32) (fs fs' : List Fetch) :
    resume a (fs ++ fs') = resume (resume a fs) fs' := by
  induction fs generalizing a with
  | nil => rfl
  | cons f fs ih => exact ih _

lemma chained_append : Chained a (fs ++ fs') ↔ Chained a fs ∧ Chained (resume a fs) fs' := by
  induction fs generalizing a with
  | nil => simp [Chained, resume]
  | cons f fs ih => simp only [List.cons_append, Chained, resume, ih, and_assoc]

lemma resume_concat (a : BitVec 32) (fs : List Fetch) (f : Fetch) :
    resume a (fs ++ [f]) = nextOf f := by
  rw [resume_append]
  rfl

/-- A run of translated code is a chain, and it leaves `x0` and the trap code alone. -/
lemma insns_chained (hvi : vi.globInfo = stateInfo)
    (h : Insns prog (helperEnv other clobber) vi a s ev fs a' s') :
    Chained a fs ∧ resume a fs = a' ∧ EqReserved s.cpu s'.cpu := by
  induction h with
  | refl => exact ⟨trivial, rfl, .refl _⟩
  | branch b _ ih => exact ih
  | insn h32 hrun hev _ ih =>
    obtain ⟨h1, h2, h3⟩ := ih
    exact ⟨⟨rfl, h1⟩, h2, (eqReserved_insnCode hvi h32 hrun).trans h3⟩

/-! ### Blocks of compiled regions -/

lemma execList_gbr {code : List Inst} {c : BitVec 32}
    (h : (execList env vi code s).2.1 = .gbr c) : ∃ ins ∈ code, ins.op = .gbr c := by
  induction code generalizing s with
  | nil => cases h
  | cons ins code ih =>
    by_cases hn : (exec env vi ins s).2.1 = .next
    · rw [execList_cons_next hn] at h
      obtain ⟨i, hi, h⟩ := ih h
      exact ⟨i, List.mem_cons_of_mem _ hi, h⟩
    · rw [execList_cons_leave hn] at h
      refine ⟨ins, by simp, ?_⟩
      by_cases hl : ins.legal = true
      · by_cases hop : ∃ stub, ins.op = .hcall stub
        · obtain ⟨stub, hop⟩ := hop
          simp only [exec, hl, if_true, hop] at h
          split at h <;> cases h
        · rw [exec_eq_eval (fun stub h => hop ⟨stub, h⟩) hl] at h
          generalize ins.i.map (readOpr vi s) = vals at h
          simp only at h
          unfold Qir.Op.eval at h
          split at h <;> simp_all
      · rw [exec_illegal (by simpa using hl)] at h
        cases h

/-- A block that leaves for a fixed address has an instruction that says so. -/
lemma execBlock_gbr {r : Region} {b : ℕ} {c : BitVec 32}
    (h : (execBlock env r b s).2.1 = .gbr c) :
    ∃ blk ins, r.blist[b]? = some blk ∧ ins ∈ blk.ilist ∧ ins.op = .gbr c := by
  rw [execBlock] at h
  cases hblk : r.blist[b]? with
  | none =>
    rw [hblk] at h
    cases h
  | some blk =>
    rw [hblk] at h
    simp only at h
    have hfl : (execList env r.vregsInfo blk.ilist s).2.1 = .gbr c := by
      generalize (execList env r.vregsInfo blk.ilist s).2.1 = fl at h
      cases fl with
      | br k =>
        simp only [leave] at h
        split at h <;> cases h
      | gbr c' =>
        cases h
        rfl
      | _ => cases h
    obtain ⟨ins, hins, hop⟩ := execList_gbr hfl
    exact ⟨blk, ins, rfl, hins, hop⟩

/-- Where the host code of a block stands, in the state `s'`, after the instructions `fs` from the
one at `a`. -/
def Stands (t : Translator) (a : BitVec 32) (fs : List Fetch) (s s' : QState) : Outcome → Prop
  | .at b => Chained a fs ∧ EntryAt t b (resume a fs) ∧ EqReserved s.cpu s'.cpu
  | .gbr c | .gbrind c => Chained a fs ∧ c = resume a fs ∧ EqReserved s.cpu s'.cpu
  | .trap => Chained a fs ∧ gpr s'.cpu 0 = gpr s.cpu 0 ∧ ∃ fs' f stub trap, fs = fs' ++ [f] ∧
      family (decode f.raw) = .call stub trap ∧ trapno s'.cpu = trap.toBits ∧ ip s'.cpu = f.ip
  | .stuck => True

lemma stands_of_compiled {ranges : List (BitVec 32 × BitVec 32)} {t : Translator} {r : Region}
    (hc : Compiled prog ranges t r) {b : ℕ} {out : Outcome}
    (hfs : BlockExecutes prog (helperEnv other clobber) t b a s fs)
    (hexec : execBlock (helperEnv other clobber) r b s = (ev, out, s')) :
    Stands t a fs s s' out := by
  have hby := hfs.byInsns hc.globInfo
  obtain ⟨-, hout, hst⟩ := hc.same (helperEnv other clobber) b s s ⟨rfl, rfl⟩
  rw [hexec] at hout hst
  generalize execBlock (helperEnv other clobber) t.region b s = x at hby hout hst
  obtain ⟨evs, out', s₁⟩ := x
  obtain rfl : out = out' := hout
  obtain ⟨ev₁, ev₂, fs', a', s₂, hins, hev, hend⟩ := hby
  obtain ⟨hch, hre, heq⟩ := insns_chained hc.globInfo hins
  cases out with
  | stuck => trivial
  | trap =>
    obtain ⟨rfl, -, tmp, h32, fl, hfl, hlist⟩ := hend
    obtain rfl : fl = .trap := by
      cases fl with
      | trap => rfl
      | _ => cases hfl
    obtain ⟨stub, trap, hf, hcpu, -⟩ := trap_insnCode
      (congrArg (fun y => y.2.1) hlist : (execList (helperEnv other clobber) _ _ s₂).2.1 = .trap)
    rw [hlist] at hcpu
    have hcpu' : s'.cpu = setTrapno (setIp s₂.cpu a') trap :=
      (hst Outcome.noConfusion).cpu.trans hcpu
    refine ⟨chained_append.mpr ⟨hch, hre.symm, trivial⟩, ?_, fs', _, stub, trap, rfl, hf, ?_, ?_⟩
    · rw [hcpu', gpr_setTrapno_zero, gpr_setIp _ (by decide), heq.gpr_zero]
    · rw [hcpu', trapno_setTrapno]
    · rw [hcpu', ip_setTrapno, ip_setIp]
      rfl
  | «at» b' =>
    obtain ⟨-, rfl, hentry, rfl⟩ := hend
    refine ⟨hch, hre ▸ hentry, ?_⟩
    rw [EqReserved, (hst Outcome.noConfusion).cpu]
    exact heq
  | gbr c =>
    obtain ⟨-, rfl, rfl, rfl⟩ := hend
    refine ⟨hch, hre.symm, ?_⟩
    rw [EqReserved, (hst Outcome.noConfusion).cpu]
    exact heq
  | gbrind c =>
    obtain ⟨-, rfl, rfl, rfl⟩ := hend
    refine ⟨hch, hre.symm, ?_⟩
    rw [EqReserved, (hst Outcome.noConfusion).cpu]
    exact heq

/-! ### The invariant -/

namespace Machine

variable {ip₀ gip : BitVec 32} {H : List Fetch} {m m' : Machine} {ptr slot b : ℕ} {j j' : Jit}
  {code : ℕ → Option RegionCode} {tb : TBlock} {rc : RegionCode} {ctl : Ctl}

/-- The slots of a region hold the addresses that its blocks leave for. -/
def SlotsOf (j : Jit) (ptr : ℕ) (rc : RegionCode) : Prop :=
  ∀ b blk ins tpc, rc.r.blist[b]? = some blk → ins ∈ blk.ilist → ins.op = .gbr tpc →
    ∃ c, j.slots (ptr + rc.slotOf b) = some ⟨c, tpc⟩

/-- Every block has its code, which is entered for the block's address, and every region has its
slots. -/
structure CodeOk (j : Jit) (code : ℕ → Option RegionCode) : Prop where
  blocks : ∀ tb, j.cache.Live tb → ∃ rc, code tb.tcode.ptr = some rc ∧ EntryAt rc.t 0 tb.ip ∧
    tb.tcode.size = rc.layout.code_sz
  slots : ∀ ptr rc, code ptr = some rc → SlotsOf j ptr rc

/-- The next instruction is the one at `a`, as far as one can tell from where control is. -/
def Here (a : BitVec 32) (H : List Fetch) (m : Machine) : Prop :=
  match m.ctl with
  | .loop _ => trapno m.s.cpu = TrapCode.NONE.toBits ∧ ip m.s.cpu = a ∨
      ∃ H' f stub trap, H = H' ++ [f] ∧ family (decode f.raw) = .call stub trap ∧
        trapno m.s.cpu = trap.toBits ∧ ip m.s.cpu = f.ip
  | .block ptr b => trapno m.s.cpu = TrapCode.NONE.toBits ∧
      ∃ rc, m.code ptr = some rc ∧ EntryAt rc.t b a
  | .slot slot => trapno m.s.cpu = TrapCode.NONE.toBits ∧ ∃ c, m.jit.slots slot = some ⟨c, a⟩
  | .brind gip => trapno m.s.cpu = TrapCode.NONE.toBits ∧ gip = a

/-- What holds of the machine when the instructions of `H` have been executed from `ip₀` on. -/
structure Ok (ip₀ : BitVec 32) (H : List Fetch) (m : Machine) : Prop where
  dispatch : Dispatch.Ok m.dispatch
  code : CodeOk m.jit m.code
  x0 : gpr m.s.cpu 0 = 0
  chained : Chained ip₀ H
  here : Here (resume ip₀ H) H m

lemma CodeOk.enter (h : CodeOk j code) (hsound : j.Sound) (hptr : j.codeAt gip = some ptr) :
    ∃ rc, code ptr = some rc ∧ EntryAt rc.t 0 gip := by
  rw [Dispatch.codeAt_eq hsound] at hptr
  obtain ⟨tb, hfind, rfl⟩ := Option.map_eq_some_iff.mp hptr
  obtain rfl : gip = tb.ip := BitVec.eq_of_toNat_eq (hsound.wf.keyed _ _ hfind)
  obtain ⟨rc, hrc, hentry, -⟩ := h.blocks tb hfind
  exact ⟨rc, hrc, hentry⟩

/-- A change of the caches and of the code of slots. -/
lemma CodeOk.of_map (h : CodeOk j code) (hmap : j'.cache.tcache_map = j.cache.tcache_map)
    (hslots : ∀ slot sl, j.slots slot = some sl → ∃ c, j'.slots slot = some ⟨c, sl.gip⟩) :
    CodeOk j' code := by
  refine ⟨fun tb hl => h.blocks tb ?_, fun ptr rc hrc b blk ins tpc hb hi hop => ?_⟩
  · rw [live_iff] at hl ⊢
    rw [← hmap]
    exact hl
  · obtain ⟨c, hc⟩ := h.slots ptr rc hrc b blk ins tpc hb hi hop
    exact hslots _ _ hc

lemma slots_linkOrCache (j : Jit) (branch_slot : Option ℕ) (tb : TBlock) {sl : BranchSlot}
    (h : j.slots slot = some sl) :
    ∃ c, (j.linkOrCache branch_slot tb).slots slot = some ⟨c, sl.gip⟩ := by
  cases branch_slot with
  | none => exact ⟨sl.code, h⟩
  | some slot' =>
    simp only [linkOrCache, Slots.link]
    by_cases heq : slot = slot'
    · subst heq
      rw [Function.update_self, h]
      exact ⟨_, rfl⟩
    · rw [Function.update_of_ne heq]
      exact ⟨sl.code, h⟩

lemma CodeOk.linkOrCache (h : CodeOk j code) (branch_slot : Option ℕ) (tb : TBlock) :
    CodeOk (j.linkOrCache branch_slot tb) code :=
  h.of_map (Dispatch.map_linkOrCache j branch_slot tb) fun _ _ hs => slots_linkOrCache j _ tb hs

lemma CodeOk.lookup (h : CodeOk j code) (gip : BitVec 32) :
    CodeOk { j with cache := (j.cache.lookup gip).2 } code :=
  h.of_map (lookup_map _ _) fun _ sl hs => ⟨sl.code, hs⟩

lemma CodeOk.tryLinkBranch (h : CodeOk j code) (slot : ℕ) (gip : BitVec 32) :
    CodeOk (j.tryLinkBranch slot gip).2 code := by
  rw [tryLinkBranch_snd]
  split
  · exact (h.lookup gip).linkOrCache _ _
  · exact h.lookup gip

lemma CodeOk.brind (h : CodeOk j code) (gip : BitVec 32) : CodeOk (j.brind gip).2 code := by
  rw [brind_snd]
  split
  · exact (h.lookup gip).linkOrCache _ _
  · exact h.lookup gip

/-- A new region. -/
lemma CodeOk.compile (h : CodeOk j code) (hsound : j.Sound) {gip : BitVec 32}
    (hnone : j.cache.lookupFull gip = none) (hfit : rc.layout.alloc_sz ≤ CODE_POOL_SIZE)
    (hrange : rc.range.1 = gip) (hj : j.compilerDoJob gip rc.layout = some (tb, j')) :
    CodeOk j' (Function.update code tb.tcode.ptr (some rc)) := by
  obtain ⟨hsound', -, hlive, hold⟩ := hsound.compilerDoJob hfit hnone hj
  obtain ⟨rfl, hsize, hcache, hslots⟩ := compilerDoJob_eq hj
  refine ⟨fun tb' hl => ?_, fun ptr rc' hrc => ?_⟩
  · by_cases heq : tb' = tb
    · subst heq
      rw [Function.update_self]
      have hentry := entryAt_translate_range rc.translated
      rw [hrange] at hentry
      exact ⟨rc, rfl, hentry, hsize⟩
    · have hl' := (Live.of_insert hnone (hcache ▸ hl)).resolve_left heq
      obtain ⟨rc', hrc', hentry, hsize'⟩ := h.blocks tb' hl'
      refine ⟨rc', ?_, hentry, hsize'⟩
      rw [Function.update_of_ne, hrc']
      -- the codes are not empty and do not overlap
      intro hptr
      have hpos := rc.nonempty
      have hpos' := rc'.nonempty
      rcases hsound'.apart tb' tb hl hlive heq with hap | hap <;> omega
  · intro b blk ins tpc hb hi hop
    by_cases hptr : ptr = tb.tcode.ptr
    · subst hptr
      rw [Function.update_self] at hrc
      cases hrc
      refine ⟨.lazyLink, ?_⟩
      rw [hslots, placeSlots, if_pos (Nat.le_add_right _ _), Nat.add_sub_cancel_left,
        rc.placed b blk ins tpc hb hi hop]
    · rw [Function.update_of_ne hptr] at hrc
      obtain ⟨c, hc⟩ := h.slots ptr rc' hrc b blk ins tpc hb hi hop
      exact ⟨c, hold _ _ hc⟩

/-! ### Steps -/

/-- The trap of a call is not the code for no trap. -/
lemma toBits_of_call {op : Insn.Op} {stub : RuntimeStubId} {trap : TrapCode}
    (hf : family op = .call stub trap) : trap.toBits ≠ TrapCode.NONE.toBits := by
  cases op <;> cases hf <;> decide

/-- At the head of the loop with no trap pending. -/
lemma Ok.ip_eq {code : ℕ → Option RegionCode} {branch_slot : Option ℕ}
    (h : Ok ip₀ H ⟨j, code, s, .loop branch_slot⟩) (hrun : trapno s.cpu = TrapCode.NONE.toBits) :
    ip s.cpu = resume ip₀ H := by
  rcases h.here with ⟨-, hip⟩ | ⟨_, _, _, _, -, hf, htrap, -⟩
  · exact hip
  · exact absurd (htrap.symm.trans hrun) (toBits_of_call hf)

/-- At a slot, the next instruction is at the address of the slot. -/
lemma Ok.at_slot {code : ℕ → Option RegionCode} {c : SlotCode}
    (h : Ok ip₀ H ⟨j, code, s, .slot slot⟩) (hsl : j.slots slot = some ⟨c, gip⟩) :
    trapno s.cpu = TrapCode.NONE.toBits ∧ resume ip₀ H = gip := by
  obtain ⟨hrun, c', hc⟩ := h.here
  rw [hsl] at hc
  exact ⟨hrun, (BranchSlot.mk.inj (Option.some.inj hc)).2.symm⟩

/-- A block of a region goes on to where the machine stands next. -/
lemma Ok.block {code : ℕ → Option RegionCode} {a : BitVec 32} {fs : List Fetch} {ev : List Event}
    {out : Outcome} (h : Ok ip₀ H ⟨j, code, s, .block ptr b⟩) (hcode : code ptr = some rc)
    (hfs : BlockExecutes rc.prog (helperEnv other clobber) rc.t b a s fs)
    (hexec : execBlock (helperEnv other clobber) rc.r b s = (ev, out, s'))
    (hnext : next ptr rc b out = some ctl) :
    gpr s'.cpu 0 = 0 ∧ Chained ip₀ (H ++ fs) ∧
      Here (resume ip₀ (H ++ fs)) (H ++ fs) ⟨j, code, s', ctl⟩ := by
  obtain ⟨hrun, rc', hrc', hentry⟩ := h.here
  obtain rfl : rc' = rc := Option.some.inj (hrc'.symm.trans hcode)
  obtain rfl : a = resume ip₀ H := rc'.spec.entryAt_unique hfs.entryAt hentry
  have hst := stands_of_compiled rc'.spec hfs hexec
  rw [chained_append, resume_append]
  cases out with
  | stuck => cases hnext
  | «at» b' =>
    cases hnext
    obtain ⟨hch, hentry', heq⟩ := hst
    exact ⟨heq.gpr_zero.trans h.x0, ⟨h.chained, hch⟩, heq.trapno.trans hrun, rc', hcode, hentry'⟩
  | gbr c =>
    cases hnext
    obtain ⟨hch, rfl, heq⟩ := hst
    obtain ⟨blk, ins, hblk, hins, hop⟩ := execBlock_gbr (congrArg (fun y => y.2.1) hexec :
      (execBlock (helperEnv other clobber) rc'.r b s).2.1 = _)
    exact ⟨heq.gpr_zero.trans h.x0, ⟨h.chained, hch⟩, heq.trapno.trans hrun,
      h.code.slots ptr rc' hcode b blk ins _ hblk hins hop⟩
  | gbrind c =>
    cases hnext
    obtain ⟨hch, rfl, heq⟩ := hst
    exact ⟨heq.gpr_zero.trans h.x0, ⟨h.chained, hch⟩, heq.trapno.trans hrun, rfl⟩
  | trap =>
    cases hnext
    obtain ⟨hch, hx0, fs', f, stub, trap, rfl, hf, htrap, hip⟩ := hst
    exact ⟨hx0.trans h.x0, ⟨h.chained, hch⟩,
      Or.inr ⟨H ++ fs', f, stub, trap, (List.append_assoc _ _ _).symm, hf, htrap, hip⟩⟩

/-- What one step preserves. -/
lemma Ok.step (h : Ok ip₀ H m) (hs : Step (helperEnv other clobber) m fs m') :
    Ok ip₀ (H ++ fs) m' := by
  obtain ⟨e, hd⟩ := hs.dispatch
  have hdisp := (h.dispatch.step hd).1
  have hsound : m.jit.Sound := h.dispatch.sound
  have hcpu : ∀ {s s' : QState}, SameState s s' → ∀ {i}, gpr s.cpu i = 0 → gpr s'.cpu i = 0 :=
    fun hs _ h0 => by rw [hs.cpu, h0]
  have hset : ∀ {s s' : QState} {gip : BitVec 32}, SameState { s with cpu := setIp s.cpu gip } s' →
      EqReserved s.cpu s'.cpu := fun hs => by
    rw [EqReserved, hs.cpu]
    exact EqReserved.setIp _ _
  cases hs with
  | @lookup j code s s' branch_slot tb cache hrun hf hs =>
    obtain ⟨hfst, rfl⟩ := Prod.ext_iff.mp hf
    rw [List.append_nil]
    have hptr : j.codeAt (ip s.cpu) = some tb.tcode.ptr := by rw [codeAt, hfst]; rfl
    obtain ⟨rc, hrc, hentry⟩ := h.code.enter hsound hptr
    rw [h.ip_eq hrun] at hentry
    exact ⟨hdisp, (h.code.lookup _).linkOrCache _ _, hcpu hs h.x0, h.chained,
      by rw [hs.cpu]; exact hrun, rc, hrc, hentry⟩
  | @compile j j' code s s' branch_slot tb cache rc hrun hf hprog hrange hfit hj hs =>
    obtain ⟨hfst, rfl⟩ := Prod.ext_iff.mp hf
    rw [List.append_nil]
    have hnone : (j.cache.lookup (ip s.cpu)).2.lookupFull (ip s.cpu) = none := by
      rw [lookupFull, lookup_map]
      exact (hsound.wf.lookup_fst _).symm.trans hfst
    have hstart : rc.range.1 = ip s.cpu := by
      rw [hrange, getCompilationIPRange]
      split <;> rfl
    have hcode := (h.code.lookup (ip s.cpu)).compile (hsound.lookup _) hnone hfit hstart hj
    have hentry := entryAt_translate_range rc.translated
    rw [hstart, h.ip_eq hrun] at hentry
    exact ⟨hdisp, hcode.linkOrCache _ _, hcpu hs h.x0, h.chained, by rw [hs.cpu]; exact hrun, rc,
      Function.update_self _ _ _, hentry⟩
  | @block j code s s' ptr b rc a fs ev out ctl hcode hfs hexec hnext =>
    obtain ⟨hx0, hch, hhere⟩ := h.block hcode hfs hexec hnext
    exact ⟨hdisp, h.code, hx0, hch, hhere⟩
  | @linked j code s s' slot ptr gip hsl hs =>
    rw [List.append_nil]
    obtain ⟨hrun, rfl⟩ := h.at_slot hsl
    obtain ⟨rc, hrc, hentry⟩ := h.code.enter hsound (Dispatch.codeAt_of_linked hsound hsl)
    exact ⟨hdisp, h.code, hcpu hs h.x0, h.chained, by rw [hs.cpu]; exact hrun, rc, hrc, hentry⟩
  | @link j j' code s s' slot ptr gip hsl hj hs =>
    rw [List.append_nil]
    obtain ⟨hrun, rfl⟩ := h.at_slot hsl
    obtain ⟨hfst, rfl⟩ := Prod.ext_iff.mp hj
    obtain ⟨rc, hrc, hentry⟩ := h.code.enter hsound ((tryLinkBranch_fst _ _ _).symm.trans hfst)
    exact ⟨hdisp, h.code.tryLinkBranch _ _, hcpu hs h.x0, h.chained, by rw [hs.cpu]; exact hrun,
      rc, hrc, hentry⟩
  | @escapeLink j j' code s s' slot gip hsl hj hs =>
    rw [List.append_nil]
    obtain ⟨hrun, rfl⟩ := h.at_slot hsl
    obtain ⟨-, rfl⟩ := Prod.ext_iff.mp hj
    exact ⟨hdisp, h.code.tryLinkBranch _ _, (hset hs).gpr_zero.trans h.x0, h.chained,
      Or.inl ⟨(hset hs).trapno.trans hrun, by rw [hs.cpu, ip_setIp]⟩⟩
  | @cached j code s s' ptr gip hj hs =>
    rw [List.append_nil]
    obtain ⟨hrun, rfl⟩ := h.here
    obtain ⟨rc, hrc, hentry⟩ := h.code.enter hsound (Dispatch.codeAt_of_cached hsound hj)
    exact ⟨hdisp, h.code, hcpu hs h.x0, h.chained, by rw [hs.cpu]; exact hrun, rc, hrc, hentry⟩
  | @brind j j' code s s' ptr gip hslow hj hs =>
    rw [List.append_nil]
    obtain ⟨hrun, rfl⟩ := h.here
    obtain ⟨hfst, rfl⟩ := Prod.ext_iff.mp hj
    obtain ⟨rc, hrc, hentry⟩ := h.code.enter hsound ((brind_fst _ _).symm.trans hfst)
    exact ⟨hdisp, h.code.brind _, (hset hs).gpr_zero.trans h.x0, h.chained,
      (hset hs).trapno.trans hrun, rc, hrc, hentry⟩
  | @escapeBrind j j' code s s' gip hslow hj hs =>
    rw [List.append_nil]
    obtain ⟨hrun, rfl⟩ := h.here
    obtain ⟨-, rfl⟩ := Prod.ext_iff.mp hj
    exact ⟨hdisp, h.code.brind _, (hset hs).gpr_zero.trans h.x0, h.chained,
      Or.inl ⟨(hset hs).trapno.trans hrun, by rw [hs.cpu, ip_setIp]⟩⟩
  | @ecall j code s s' htrap rc mem hs =>
    rw [List.append_nil]
    rcases h.here with ⟨hrun, -⟩ | ⟨H', f, stub, trap, hH, hf, -, hip⟩
    · exact absurd (htrap.symm.trans hrun) (by decide)
    -- the call is the last instruction, and the next one is behind it
    have hnext : resume ip₀ H = f.ip + 4 := by
      rw [hH, resume_concat, nextOf, nextIp, hf]
    refine ⟨hdisp, h.code, ?_, h.chained, Or.inl ⟨?_, ?_⟩⟩
    · rw [hs.cpu, syscallLinux, gpr_setGpr_of_ne _ (by decide), gpr_setTrapno_zero,
        gpr_setIp _ (by decide)]
      exact h.x0
    · rw [hs.cpu, syscallLinux, trapno_setGpr _ (by decide), trapno_setTrapno]
    · rw [hs.cpu, syscallLinux, ip_setGpr _ (by decide), ip_setTrapno, ip_setIp, hip, hnext]

lemma ok_start (tb_base code_base : ℕ) (h0 : gpr s.cpu 0 = 0)
    (htrap : trapno s.cpu = TrapCode.NONE.toBits) :
    Ok (ip s.cpu) [] (start tb_base code_base s) :=
  ⟨Dispatch.ok_start tb_base code_base _, ⟨(fun _ h => by cases h), fun _ _ h => by cases h⟩, h0,
    trivial, Or.inl ⟨htrap, rfl⟩⟩

/-- What a run preserves. -/
lemma Ok.run {m₀ : Machine} {H : List Executed} (h : Ok ip₀ [] m₀)
    (hrun : Run (helperEnv other clobber) m₀ H m) : Ok ip₀ (H.map Executed.toFetch) m := by
  induction hrun with
  | nil => exact h
  | step hrun hstep ih =>
    have hnext := ih.step hstep
    rw [List.map_append, List.map_map]
    simpa [Function.comp_def] using hnext

/-- In every run the instructions follow one another as they should.  At the head of the loop `x0`
is zero; with no trap pending the instruction pointer is the address of the next instruction, and a
slot that is held is one for it; with a trap pending it is the address of the `ecall` or `ebreak`
that has been executed last. -/
theorem run_resumes (tb_base code_base : ℕ) (h0 : gpr s.cpu 0 = 0)
    (htrap : trapno s.cpu = TrapCode.NONE.toBits) {H : List Executed}
    (hrun : Run (helperEnv other clobber) (start tb_base code_base s) H m) :
    Chained (ip s.cpu) (H.map Executed.toFetch) ∧
    ∀ branch_slot, m.ctl = .loop branch_slot →
      gpr m.s.cpu 0 = 0 ∧
      (trapno m.s.cpu = TrapCode.NONE.toBits →
        ip m.s.cpu = resume (ip s.cpu) (H.map Executed.toFetch) ∧
        ∀ slot, branch_slot = some slot → ∃ sl, m.jit.slots slot = some sl ∧
          sl.gip = ip m.s.cpu) ∧
      (trapno m.s.cpu ≠ TrapCode.NONE.toBits → ∃ H' f stub trap,
        H.map Executed.toFetch = H' ++ [f] ∧ family (decode f.raw) = .call stub trap ∧
        trapno m.s.cpu = trap.toBits ∧ ip m.s.cpu = f.ip) := by
  have h := (ok_start tb_base code_base h0 htrap).run hrun
  refine ⟨h.chained, fun branch_slot hctl => ⟨h.x0, fun hnone => ⟨?_, fun slot hslot => ?_⟩,
    fun hpend => ?_⟩⟩
  · obtain ⟨j, code, s', ctl⟩ := m
    cases hctl
    exact h.ip_eq hnone
  · refine ⟨_, h.dispatch.held slot ?_, rfl⟩
    simp only [Machine.dispatch, hctl, hslot]
  · have hhere := h.here
    simp only [Here, hctl] at hhere
    exact hhere.resolve_left fun hl => hpend hl.1

/-- A run that ends in the trap of an `ecall`. -/
theorem run_resumes_storeRegion : ∃ H m, Run noHelper (start 0 0 (storeState 0x13)) H m ∧
    H.length = 3 ∧ gpr (storeState 0x13).cpu 0 = 0 ∧
    trapno (storeState 0x13).cpu = TrapCode.NONE.toBits ∧
    Chained (ip (storeState 0x13).cpu) (H.map Executed.toFetch) ∧
    ∀ branch_slot, m.ctl = .loop branch_slot →
      gpr m.s.cpu 0 = 0 ∧
      (trapno m.s.cpu = TrapCode.NONE.toBits →
        ip m.s.cpu = resume (ip (storeState 0x13).cpu) (H.map Executed.toFetch) ∧
        ∀ slot, branch_slot = some slot → ∃ sl, m.jit.slots slot = some sl ∧
          sl.gip = ip m.s.cpu) ∧
      (trapno m.s.cpu ≠ TrapCode.NONE.toBits → ∃ H' f stub trap,
        H.map Executed.toFetch = H' ++ [f] ∧ family (decode f.raw) = .call stub trap ∧
        trapno m.s.cpu = trap.toBits ∧ ip m.s.cpu = f.ip) := by
  have htrap : (execBlock noHelper storeRegion.r 0 (storeState 0x13)).2.1 = .trap := by
    decide +kernel
  have h0 : gpr (storeState 0x13).cpu 0 = 0 := by decide +kernel
  have hnone : trapno (storeState 0x13).cpu = TrapCode.NONE.toBits := by decide +kernel
  obtain ⟨code, s₁, s₂, m, -, hrun, -⟩ := storeRegion_run 0x13 htrap
  exact ⟨_, m, hrun, rfl, h0, hnone, run_resumes 0 0 h0 hnone hrun⟩

end Machine

end Rv32jit.Runtime
