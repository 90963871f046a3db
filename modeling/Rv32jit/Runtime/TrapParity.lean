/-
# Traps of the two engines

The interpreter runs handlers one by one, up to the first trap, each for the word that is in the
memory.  The translated code is run as the execution loop runs it: the code for an address is there
already, or it is compiled from the words that are in the memory then, its blocks are executed, and
each exit leads to the code of the next address.  An `ecall` and an `ebreak` come out the same.  No
other trap does: a jump to a misaligned address is taken, and an illegal word stops the simulator as
soon as it is translated, whatever comes before it.
-/
import Rv32jit.Guest.Allocate
import Rv32jit.Runtime.IpRange
import Rv32jit.Runtime.Resume

namespace Rv32jit.Runtime

open Qir Insn CPUState Translate Interp

/-! ### The engine -/

/-- What the execution loop finds when it needs the code for an address: the blocks that are known
then, the addresses whose code has not been flushed, and what the host registers and the frame hold
at the entry. -/
structure Entry where
  cache : TCache
  keyed : ∀ k tb, cache.tcache_map.find k = some tb → k = tb.ip.toNat
  kept : BitVec 32 → Bool
  host : QState

/-- An empty cache, and all registers zero. -/
def Entry.init : Entry where
  cache := .init
  keyed _ _ h := absurd h (by simp [TCache.init, OrdMap.empty, OrdMap.find])
  kept _ := true
  host := ⟨fun _ => 0, fun _ => 0, fun _ => 0, fun _ => 0, fun _ => 0⟩

/-- Where the translated code stands: in need of the code for an address, before a block of a
region, or at a trap; or the simulator has stopped. -/
inductive Place
  | code (gip : BitVec 32)
  | block (r : Region) (b : ℕ)
  | trap
  | panic

/-- The state, and the code that has been compiled for some addresses. -/
structure Engine where
  s : QState
  place : Place
  code : BitVec 32 → Option Region

namespace Engine

/-- Where a block of a region leads to. -/
def next (r : Region) : Outcome → Place
  | .at b => .block r b
  | .gbr gip | .gbrind gip => .code gip
  | .trap => .trap
  | .stuck => .panic

/-- One step: the code for an address, or one block. -/
def step (env : HelperEnv) (e : Entry) (x : Engine) : List Event × Engine :=
  match x.place with
  | .code gip =>
      let s := { e.host with cpu := x.s.cpu, mem := x.s.mem }
      let code a := if e.kept a then x.code a else none
      match code gip with
      | some r => ([], ⟨s, .block r 0, code⟩)
      | none =>
          match compile (word x.s.mem) [getCompilationIPRange e.cache gip] with
          | some (_, r) => ([], ⟨s, .block r 0, Function.update code gip (some r)⟩)
          | none => ([], { x with place := .panic })
  | .block r b =>
      let (ev, out, s) := execBlock env r b x.s
      (ev, { x with s := s, place := next r out })
  | .trap => ([], x)
  | .panic => ([], x)

/-- `n` steps, with the trace that they leave. -/
def run (env : HelperEnv) (entry : ℕ → Entry) : ℕ → Engine → List Event × Engine
  | 0, x => ([], x)
  | n + 1, x =>
      let (ev, y) := run env entry n x
      let (ev', z) := step env (entry n) y
      (ev ++ ev', z)

/-- The execution loop with the state `s`, before anything has been compiled. -/
def start (s : QState) : Engine := ⟨s, .code (ip s.cpu), fun _ => none⟩

/-- The translated code has raised the trap that the interpreter has, in the same state and after
the same accesses to memory. -/
structure Raised (x : List Event × Engine) (r : Res) : Prop where
  place : x.2.place = .trap
  trapped : r.trapped = true
  cpu : x.2.s.cpu = r.hart.cpu
  mem : x.2.s.mem = r.hart.mem
  acc : memAccesses x.1 = r.acc

end Engine

/-- The interpreter at the guest state. -/
def enter (cpu mem : ByteMem) : Hart := ⟨cpu, ip cpu, mem⟩

/-- The word in the memory at which the interpreter stands. -/
def nextWord (h : Hart) : BitVec 32 := word h.mem h.gip

/-- `P` holds whenever the interpreter executes an instruction. -/
def Always (P : Hart → Prop) (h : Hart) : Prop :=
  ∀ n, (runBy nextWord n h).trapped = false → P (runBy nextWord n h).hart

/-- The addresses of the instructions that the translator makes code of where the interpreter
stands, if no block above it cuts the range. -/
def ahead (h : Hart) : List (BitVec 32) :=
  rangeIps (word h.mem) (roundupPage h.gip) TB_MAX_INSNS h.gip

/-- Each word that the interpreter executes is the one that was there whenever it stood where the
translator would have made code of it. -/
def NeverStale (h : Hart) : Prop :=
  ∀ m n, m ≤ n → (runBy nextWord n h).trapped = false →
    (runBy nextWord n h).hart.gip ∈ ahead (runBy nextWord m h).hart →
    word (runBy nextWord m h).hart.mem (runBy nextWord n h).hart.gip =
      nextWord (runBy nextWord n h).hart

variable {prog : BitVec 32 → BitVec 32} {P Q : Hart → Prop} {h : Hart}

/-! ### The interpreter -/

/-- What always holds does so after some instructions. -/
lemma Always.run (hp : Always P h) (n : ℕ) (ht : (runBy nextWord n h).trapped = false) :
    Always P (runBy nextWord n h).hart := by
  intro m hm
  have hadd := runBy_add nextWord n m ht
  have := hp (n + m) (by rw [hadd]; exact hm)
  rwa [hadd] at this

lemma Always.step (hp : Always P h) (ht : (Interp.step (nextWord h) h).trapped = false) :
    Always P (Interp.step (nextWord h) h).hart := by
  have := hp.run 1 (by rwa [runBy_one])
  rwa [runBy_one] at this

/-- An instruction that does not end a range goes on to the next address. -/
lemma step_of_not_ends {raw : BitVec 32} (hend : (family (decode raw)).ends = false) (h : Hart) :
    (Interp.step raw h).trapped = false ∧ (Interp.step raw h).hart.gip = h.gip + 4 := by
  rw [Interp.step, handler_family]
  generalize family (decode raw) = f at hend ⊢
  cases f with
  | illegal | jal | jalr | brcc | call => cases hend
  | _ => exact ⟨rfl, rfl⟩

/-- A boundary that is lower leaves fewer instructions. -/
lemma rangeIps_subset {boundary boundary' : BitVec 32} (hle : boundary ≤ boundary') (n : ℕ)
    (a : BitVec 32) : rangeIps prog boundary n a ⊆ rangeIps prog boundary' n a := by
  induction n generalizing a with
  | zero => exact List.Subset.refl _
  | succ n ih =>
    rw [rangeIps, rangeIps]
    refine List.cons_subset_cons _ ?_
    split
    · exact List.nil_subset _
    · rename_i hgo
      obtain ⟨hend, hcut⟩ := not_or.mp hgo
      rw [if_neg (not_or.mpr ⟨hend, fun hb => hcut (BitVec.le_trans hle hb)⟩)]
      exact ih (a + 4)

/-- The interpreter finds the words of the program wherever it comes to one of the addresses. -/
def FindsWords (prog : BitVec 32 → BitVec 32) (ips : List (BitVec 32)) (h : Hart) : Prop :=
  ∀ j, (runBy nextWord j h).trapped = false → (runBy nextWord j h).hart.gip ∈ ips →
    prog (runBy nextWord j h).hart.gip = nextWord (runBy nextWord j h).hart

/-- From one instruction of a range to the next. -/
lemma FindsWords.next {boundary : BitVec 32} {n : ℕ}
    (hf : FindsWords prog (rangeIps prog boundary (n + 1) h.gip) h)
    (hgo : ¬ ((family (decode (prog h.gip))).ends = true ∨ boundary ≤ h.gip + 4)) :
    prog h.gip = nextWord h ∧ (Interp.step (nextWord h) h).trapped = false ∧
      (Interp.step (nextWord h) h).hart.gip = h.gip + 4 ∧
      FindsWords prog (rangeIps prog boundary n (h.gip + 4))
        (Interp.step (nextWord h) h).hart := by
  have hw : prog h.gip = nextWord h := hf 0 rfl List.mem_cons_self
  have hend : (family (decode (nextWord h))).ends = false := by
    rw [← hw]
    exact Bool.eq_false_of_not_eq_true fun he => hgo (Or.inl he)
  obtain ⟨htr, hgip⟩ := step_of_not_ends hend h
  refine ⟨hw, htr, hgip, fun j hj hmem => ?_⟩
  have hsucc := runBy_succ nextWord (n := j) htr
  have := hf (j + 1) (by rw [hsucc]; exact hj) (by
    rw [hsucc, rangeIps, if_neg hgo]
    exact List.mem_cons_of_mem _ hmem)
  rwa [hsucc] at this

/-- The interpreter comes to every instruction of the range. -/
lemma FindsWords.executed {boundary : BitVec 32} {n : ℕ}
    (hf : FindsWords prog (rangeIps prog boundary n h.gip) h) {a : BitVec 32}
    (ha : a ∈ rangeIps prog boundary n h.gip) :
    ∃ j, (runBy nextWord j h).trapped = false ∧ (runBy nextWord j h).hart.gip = a := by
  induction n generalizing h with
  | zero => exact absurd ha List.not_mem_nil
  | succ n ih =>
    rw [rangeIps] at ha
    rcases List.mem_cons.mp ha with rfl | ha
    · exact ⟨0, rfl, rfl⟩
    · split at ha
      · exact absurd ha List.not_mem_nil
      · rename_i hgo
        obtain ⟨-, htr, hgip, hf'⟩ := hf.next hgo
        rw [← hgip] at ha hf'
        obtain ⟨j, hj, hja⟩ := ih hf' ha
        refine ⟨j + 1, ?_⟩
        rw [runBy_succ nextWord htr]
        exact ⟨hj, hja⟩

/-- The conditions under which the engine keeps in step: the word is legal and no load to `x0` with
offset zero, its target is not misaligned, and its address is not that of the first byte or in the
last page. -/
structure Proper (h : Hart) : Prop where
  legal : decode (nextWord h) ≠ .illegal
  aligned : misaligned (nextWord h) h = false
  x0 : isX0Load (family (decode (nextWord h))) (nextWord h) = false
  pos : h.gip ≠ 0
  le : h.gip ≤ 0xFFFFF000

/-- On the instructions of the range the program and the memory give the same run. -/
lemma FindsWords.run {boundary : BitVec 32} {n : ℕ}
    (hf : FindsWords prog (rangeIps prog boundary n h.gip) h) (hp : Always Proper h) {k : ℕ}
    (hk : k ≤ (rangeIps prog boundary n h.gip).length) :
    Interp.run prog k h = runBy nextWord k h ∧ Clean prog k h := by
  induction n generalizing h k with
  | zero =>
    obtain rfl : k = 0 := Nat.le_zero.mp hk
    exact ⟨rfl, trivial⟩
  | succ n ih =>
    cases k with
    | zero => exact ⟨rfl, trivial⟩
    | succ k =>
      have hnow : Proper h := hp 0 rfl
      rw [rangeIps, List.length_cons] at hk
      by_cases hgo : (family (decode (prog h.gip))).ends = true ∨ boundary ≤ h.gip + 4
      · rw [if_pos hgo] at hk
        obtain rfl : k = 0 := Nat.le_zero.mp (Nat.le_of_succ_le_succ hk)
        have hw : prog h.gip = nextWord h := hf 0 rfl List.mem_cons_self
        rw [run_one, runBy_one, Clean, hw]
        exact ⟨rfl, hnow.x0, hnow.aligned, fun _ => trivial⟩
      · rw [if_neg hgo] at hk
        obtain ⟨hw, htr, hgip, hf'⟩ := hf.next hgo
        rw [← hgip] at hk hf'
        obtain ⟨hrun, hclean⟩ := ih hf' (hp.step htr) (Nat.le_of_succ_le_succ hk)
        rw [runBy_succ nextWord htr, run_succ (by rw [hw]; exact htr), Clean, hw, hrun]
        exact ⟨rfl, hnow.x0, hnow.aligned, fun _ => hclean⟩

/-! ### Compilation -/

/-- The end of the range is no boundary of zero, unless the address is that of the first byte or in
the last page. -/
lemma range_snd_ne_zero {c : TCache}
    (hkeyed : ∀ k tb, c.tcache_map.find k = some tb → k = tb.ip.toNat) {gip : BitVec 32}
    (h0 : gip ≠ 0) (hle : gip ≤ 0xFFFFF000) :
    (getCompilationIPRange c gip).2 ≠ 0 := by
  have hpos : gip.toNat ≠ 0 := fun h => h0 (BitVec.eq_of_toNat_eq h)
  have hle' : gip.toNat ≤ 0xFFFFF000 := BitVec.le_def.mp hle
  have hround : roundupPage gip ≠ 0 := by
    intro h
    have hnat := toNat_roundupPage gip
    rw [h, pageEnd] at hnat
    split at hnat
    · exact hpos hnat.symm
    · split at hnat
      · exact absurd hnat (by simp)
      · omega
  rw [getCompilationIPRange]
  cases hub : c.lookupUpperBound gip with
  | none => exact hround
  | some tb =>
    obtain ⟨k, hk, hfind, -⟩ := OrdMap.upperBound_eq_some hub
    have hip := hkeyed k tb hfind
    simp only
    split
    · intro h
      rw [h] at hip
      exact absurd hk (by simp [hip])
    · exact hround

variable {h₀ : Hart} {p : ℕ}

/-- What the translator reads where the interpreter stands is what the interpreter finds from there
on, and whenever it is back. -/
lemma NeverStale.findsWords (hs : NeverStale h₀) {m : ℕ} (hle : m ≤ p)
    (hp : (runBy nextWord p h₀).trapped = false)
    (hgip : (runBy nextWord p h₀).hart.gip = (runBy nextWord m h₀).hart.gip) (c : TCache) :
    FindsWords (word (runBy nextWord m h₀).hart.mem)
      (rangeIps (word (runBy nextWord m h₀).hart.mem)
        (getCompilationIPRange c (runBy nextWord m h₀).hart.gip).2 TB_MAX_INSNS
        (runBy nextWord p h₀).hart.gip) (runBy nextWord p h₀).hart := by
  intro j hj hmem
  have hadd := runBy_add nextWord p j hp
  rw [hgip] at hmem
  have := hs m (p + j) (by omega) (by rw [hadd]; exact hj) (by
    rw [hadd]
    exact rangeIps_subset (BitVec.le_def.mpr (range_snd_le c _)) _ _ hmem)
  rwa [hadd] at this

/-- The code for the address at which the interpreter stands is compiled. -/
lemma NeverStale.compile (hs : NeverStale h₀) (hp : Always Proper h₀)
    (htr : (runBy nextWord p h₀).trapped = false) {c : TCache}
    (hkeyed : ∀ k tb, c.tcache_map.find k = some tb → k = tb.ip.toNat) :
    ∃ t r, compile (word (runBy nextWord p h₀).hart.mem)
      [getCompilationIPRange c (runBy nextWord p h₀).hart.gip] = some (t, r) := by
  have hproper := hp p htr
  have hwords := hs.findsWords le_rfl htr rfl c
  have hall := hp.run p htr
  generalize (runBy nextWord p h₀).hart = h at hproper hwords hall
  have hfst := range_fst c h.gip
  have hsnd := range_snd_ne_zero hkeyed hproper.pos hproper.le
  obtain ⟨t, ht⟩ : ∃ t, Translator.translate (word h.mem) [getCompilationIPRange c h.gip] =
      some t := by
    generalize getCompilationIPRange c h.gip = range at hfst hsnd hwords
    obtain ⟨lower, upper⟩ := range
    obtain rfl : lower = h.gip := hfst
    have hfind : (Translator.insertRange .init h.gip).find h.gip = some 0 := by
      simp [Translator.insertRange, Translator.init, Translator.find, Region.createBlock]
    -- the interpreter executes every word of the range
    have hlegal : ∀ a ∈ rangeIps (word h.mem) upper TB_MAX_INSNS h.gip,
        decode (word h.mem a) ≠ .illegal := by
      intro a ha
      obtain ⟨j, hj, rfl⟩ := hwords.executed ha
      rw [hwords j hj ha]
      exact (hall j hj).legal
    obtain ⟨t, ht⟩ := loop_isSome hlegal
      (t := { Translator.insertRange .init h.gip with insn_ip := h.gip, bb := 0, control := .NEXT })
    refine ⟨t, ?_⟩
    simp only [Translator.translate, List.foldl_cons, List.foldl_nil, List.foldlM_cons,
      List.foldlM_nil, Translator.translateIPRange, if_neg hsnd, hfind, ht]
    rfl
  obtain ⟨r, hr⟩ := compile_of_translate ht
  exact ⟨t, r, hr⟩

/-! ### The traps of translated code -/

namespace Engine

variable {other : RuntimeStubId → BitVec 32 → ByteMem → ByteMem → HelperRes}
  {clobber : RuntimeStubId → (ℕ → BitVec 32) → ByteMem → ByteMem → ℕ → BitVec 32}
  {x : Engine} {w N : ℕ}

/-- The block is one of a compiled region. -/
def OfCompiled (r : Region) (b : ℕ) : Prop :=
  ∃ prog ranges t a, Compiled prog ranges t r ∧ EntryAt t b a

/-- All code is that of compiled regions, and a trap is one of a call. -/
structure Ok (x : Engine) : Prop where
  code : ∀ gip r, x.code gip = some r → OfCompiled r 0
  block : ∀ r b, x.place = .block r b → OfCompiled r b
  trap : x.place = .trap → ∃ op stub trap, family op = .call stub trap ∧
    trapno x.s.cpu = trap.toBits

/-- The code for an address starts with the block that is entered for it. -/
lemma compiled_range {c : TCache} {gip : BitVec 32} {t : Translator} {r : Region}
    (hc : compile prog [getCompilationIPRange c gip] = some (t, r)) :
    Compiled prog [getCompilationIPRange c gip] t r ∧ t.find gip = some 0 := by
  have hcomp : Compiled prog [getCompilationIPRange c gip] t r :=
    compiled_of_compile (List.nodup_singleton _) hc
  obtain ⟨b, hb⟩ := hcomp.entry _ (List.mem_singleton_self _)
  rw [find_translate_range (translate_of_compile hc) hb, range_fst] at hb
  exact ⟨hcomp, hb⟩

/-- The code that is kept. -/
lemma code_of_kept {e : Entry} {gip : BitVec 32} {r : Region}
    (h : (if e.kept gip then x.code gip else none) = some r) : x.code gip = some r := by
  split at h
  · exact h
  · cases h

lemma Ok.step (hx : Ok x) (e : Entry) : Ok (step (helperEnv other clobber) e x).2 := by
  obtain ⟨s, place, code⟩ := x
  cases place with
  | code gip =>
    simp only [Engine.step]
    split
    · rename_i r hr
      refine ⟨fun a r' h => hx.code a r' (code_of_kept h), ?_, Place.noConfusion⟩
      rintro r' b ⟨⟩
      exact hx.code gip r (code_of_kept hr)
    · split
      · rename_i t r hc
        obtain ⟨hcomp, hfind⟩ := compiled_range hc
        have hr : OfCompiled r 0 := ⟨_, _, t, gip, hcomp, Or.inl hfind⟩
        refine ⟨fun a r' h => ?_, ?_, Place.noConfusion⟩
        · by_cases ha : a = gip
          · rw [ha] at h
            simp only [Function.update_self, Option.some.injEq] at h
            rwa [← h]
          · simp only [Function.update_of_ne ha] at h
            exact hx.code a r' (code_of_kept h)
        · rintro r' b ⟨⟩
          exact hr
      · exact ⟨hx.code, fun _ _ => Place.noConfusion, Place.noConfusion⟩
  | block r b =>
    obtain ⟨prog, ranges, t, a, hcomp, hentry⟩ := hx.block r b rfl
    obtain ⟨fs, hfs⟩ := hcomp.toTranslated.blockExecutes hcomp.fits hentry
      (helperEnv other clobber) s
    simp only [Engine.step]
    obtain ⟨y, hy⟩ : ∃ y, execBlock (helperEnv other clobber) r b s = y := ⟨_, rfl⟩
    obtain ⟨ev, out, s'⟩ := y
    have hst := stands_of_compiled hcomp hfs hy
    rw [hy]
    refine ⟨hx.code, ?_, ?_⟩
    · intro r' b' hplace
      cases out with
      | «at» b₁ =>
        obtain ⟨rfl, rfl⟩ := Place.block.inj hplace
        exact ⟨prog, ranges, t, _, hcomp, hst.2.1⟩
      | _ => cases hplace
    · intro hplace
      cases out with
      | trap =>
        obtain ⟨-, -, -, f, stub, trap, -, hf, htrap, -⟩ := hst
        exact ⟨decode f.raw, stub, trap, hf, htrap⟩
      | _ => cases hplace
  | _ => exact hx

/-- The code for an address has been compiled when the interpreter stood there, after at most `p`
instructions. -/
def Made (h₀ : Hart) (p : ℕ) (gip : BitVec 32) (t : Translator) (r : Region) : Prop :=
  ∃ m ≤ p, (runBy nextWord m h₀).hart.gip = gip ∧ ∃ c : TCache,
    compile (word (runBy nextWord m h₀).hart.mem) [getCompilationIPRange c gip] = some (t, r)

lemma Made.mono {p' : ℕ} {gip : BitVec 32} {t : Translator} {r : Region} (h : Made h₀ p gip t r)
    (hle : p ≤ p') : Made h₀ p' gip t r := by
  obtain ⟨m, hm, h⟩ := h
  exact ⟨m, hm.trans hle, h⟩

/-- A region that has been made is run with the words that the interpreter executes. -/
lemma Made.run {gip : BitVec 32} {t : Translator} {r : Region} (h : Made h₀ p gip t r)
    (hs : NeverStale h₀) (hp : Always Proper h₀) (htr : (runBy nextWord p h₀).trapped = false) :
    ∃ prog ranges, Compiled prog ranges t r ∧ t.find gip = some 0 ∧
      ∀ k ≤ (jobIps prog ranges (runBy nextWord p h₀).hart.gip).length,
        Interp.run prog k (runBy nextWord p h₀).hart =
            runBy nextWord k (runBy nextWord p h₀).hart ∧
          Clean prog k (runBy nextWord p h₀).hart := by
  obtain ⟨m, hm, rfl, c, hc⟩ := h
  obtain ⟨hcomp, hfind⟩ := compiled_range hc
  refine ⟨_, _, hcomp, hfind, fun k hk => ?_⟩
  by_cases hgip : (runBy nextWord p h₀).hart.gip = (runBy nextWord m h₀).hart.gip
  · have hwords := hs.findsWords hm htr hgip c
    refine hwords.run (hp.run p htr) (hk.trans (Nat.le_of_eq ?_))
    rw [jobIps, List.lookup_cons, range_fst, beq_iff_eq.mpr hgip]
    rfl
  · -- no range starts there
    obtain rfl : k = 0 := by
      rw [jobIps, List.lookup_cons, range_fst, beq_eq_false_iff_ne.mpr hgip] at hk
      exact Nat.le_zero.mp hk
    exact ⟨rfl, trivial⟩

/-- The engine stands at the address to which the interpreter has come by `p` instructions.  It
needs `w` steps more than usual until its next instruction: one for the code of an address, and
another where a block only leaves its region. -/
inductive Stands (h₀ : Hart) (p : ℕ) : ℕ → Place → Prop
  | code : Stands h₀ p 1 (.code (runBy nextWord p h₀).hart.gip)
  | block {gip : BitVec 32} {t : Translator} {r : Region} {b w : ℕ} (hm : Made h₀ p gip t r)
      (hentry : EntryAt t b (runBy nextWord p h₀).hart.gip)
      (hw : t.find (runBy nextWord p h₀).hart.gip = some b ∨ w = 2) : Stands h₀ p w (.block r b)

/-- The engine is where the interpreter is after `p` instructions. -/
structure At (h₀ : Hart) (p w : ℕ) (x : Engine) : Prop where
  rel : Rel (runBy nextWord p h₀).hart x.s
  code : ∀ gip r, x.code gip = some r → ∃ t, Made h₀ p gip t r
  stands : Stands h₀ p w x.place

/-- After `N` steps the engine is where the interpreter is after some number of instructions, of
which there is one for three of the steps, but for the first step and those that it is ahead by. -/
def Abreast (h₀ : Hart) (N : ℕ) (x : List Event × Engine) : Prop :=
  ∃ p, Raised x (runBy nextWord p h₀) ∨
    memAccesses x.1 = (runBy nextWord p h₀).acc ∧ (runBy nextWord p h₀).trapped = false ∧
      ∃ w, At h₀ p w x.2 ∧ N + w ≤ 3 * p + 1

/-- The engine has neither trapped nor stopped. -/
lemma At.place (hat : At h₀ p w x) : x.place ≠ .trap ∧ x.place ≠ .panic := by
  obtain ⟨s, place, code⟩ := x
  cases hat.stands <;> exact ⟨Place.noConfusion, Place.noConfusion⟩

/-- The step to the code for an address. -/
lemma At.step_code {s : QState} {code : BitVec 32 → Option Region} {gip : BitVec 32}
    (hat : At h₀ p w ⟨s, .code gip, code⟩) (hs : NeverStale h₀) (hp : Always Proper h₀)
    (htr : (runBy nextWord p h₀).trapped = false) (e : Entry) :
    w = 1 ∧ (step (helperEnv other clobber) e ⟨s, .code gip, code⟩).1 = [] ∧
      At h₀ p 0 (step (helperEnv other clobber) e ⟨s, .code gip, code⟩).2 := by
  obtain ⟨hr, hcode, hstands⟩ := hat
  cases hstands
  have hrel : Rel (runBy nextWord p h₀).hart
      { e.host with cpu := s.cpu, mem := s.mem } := hr.of_cpu rfl rfl
  refine ⟨rfl, ?_⟩
  simp only [Engine.step]
  split
  · rename_i r hr'
    obtain ⟨t, hm⟩ := hcode _ r (code_of_kept hr')
    obtain ⟨-, -, -, hfind, -⟩ := hm.run hs hp htr
    exact ⟨rfl, hrel, fun a r' h => hcode a r' (code_of_kept h),
      .block hm (Or.inl hfind) (Or.inl hfind)⟩
  · obtain ⟨t, r, hc⟩ := hs.compile hp htr e.keyed
    have hm : Made h₀ p (runBy nextWord p h₀).hart.gip t r := ⟨p, le_rfl, rfl, _, hc⟩
    obtain ⟨-, hfind⟩ := compiled_range hc
    rw [← hr.mem] at hc
    rw [hc]
    refine ⟨rfl, hrel, fun a r' h => ?_, .block hm (Or.inl hfind) (Or.inl hfind)⟩
    by_cases ha : a = (runBy nextWord p h₀).hart.gip
    · rw [ha] at h
      simp only [Function.update_self, Option.some.injEq] at h
      rw [ha, ← h]
      exact ⟨t, hm⟩
    · simp only [Function.update_of_ne ha] at h
      exact hcode a r' (code_of_kept h)

/-- The step over a block. -/
lemma At.step_block {s : QState} {code : BitVec 32 → Option Region} {r : Region} {b : ℕ}
    {ev : List Event} (hat : At h₀ p w ⟨s, .block r b, code⟩) (hs : NeverStale h₀)
    (hp : Always Proper h₀) (htr : (runBy nextWord p h₀).trapped = false)
    (hacc : memAccesses ev = (runBy nextWord p h₀).acc) (hle : N + w ≤ 3 * p + 1) (e : Entry) :
    Abreast h₀ (N + 1) (ev ++ (step (helperEnv other clobber) e ⟨s, .block r b, code⟩).1,
      (step (helperEnv other clobber) e ⟨s, .block r b, code⟩).2) := by
  obtain ⟨hr, hcode, hstands⟩ := hat
  obtain ⟨gip, t, hm, hentry, hw⟩ : ∃ gip t, Made h₀ p gip t r ∧
      EntryAt t b (runBy nextWord p h₀).hart.gip ∧
      (t.find (runBy nextWord p h₀).hart.gip = some b ∨ w = 2) := by
    cases hstands with
    | block hm hentry hw => exact ⟨_, _, hm, hentry, hw⟩
  obtain ⟨prog, ranges, hcomp, -, hsame⟩ := hm.run hs hp htr
  obtain ⟨k, hk, hf, hacc', -, hfirst, hprog⟩ := block_follows other clobber
    hcomp.toTranslated hcomp.fits hentry hr (hsame _ le_rfl).2
  rw [(hsame k hk).1] at hf hacc'
  obtain ⟨hev, hout, hst⟩ := hcomp.same (helperEnv other clobber) b s s ⟨rfl, rfl⟩
  simp only [Engine.step]
  generalize execBlock (helperEnv other clobber) t.region b s = y at hf hacc' hprog hev hout hst
  generalize execBlock (helperEnv other clobber) r b s = z at hev hout hst ⊢
  obtain ⟨ev₁, out, s₁⟩ := y
  obtain ⟨ev₂, out', s₂⟩ := z
  obtain rfl : ev₂ = ev₁ := hev
  obtain rfl : out' = out := hout
  have hadd := runBy_add nextWord p k htr
  have hmem : memAccesses (ev ++ ev₂) = (runBy nextWord (p + k) h₀).acc := by
    rw [memAccesses_append, hadd, hacc', hacc]
  have hcode' : ∀ gip r, code gip = some r → ∃ t, Made h₀ (p + k) gip t r := by
    intro gip r h
    obtain ⟨t, h⟩ := hcode gip r h
    exact ⟨t, h.mono (Nat.le_add_right p k)⟩
  have hk2 : 2 ≤ 3 * k + w := by
    rcases hw with hfind | rfl
    · have := hfirst hfind
      omega
    · omega
  refine ⟨p + k, ?_⟩
  cases out' with
  | stuck => exact hf.elim
  | trap =>
    obtain ⟨htr', hcpu, hmem'⟩ := hf
    have hsame := hst Outcome.noConfusion
    refine Or.inl ⟨rfl, ?_, ?_, ?_, hmem⟩ <;> rw [hadd]
    · exact htr'
    · exact hsame.cpu.trans hcpu
    · exact hsame.mem.trans hmem'
  | «at» b' =>
    obtain ⟨htr', hentry', hr'⟩ := hf
    have hsame := hst Outcome.noConfusion
    obtain ⟨-, hpos, -⟩ := hprog b' rfl
    refine Or.inr ⟨hmem, by rw [hadd]; exact htr', 2, ⟨?_, hcode', ?_⟩, by omega⟩
    · rw [hadd]
      exact hr'.of_cpu hsame.cpu hsame.mem
    · refine .block (hm.mono (Nat.le_add_right p k)) ?_ (Or.inr rfl)
      rw [hadd]
      exact hentry'
  | gbr gip | gbrind gip =>
    obtain ⟨htr', rfl, hr'⟩ := hf
    have hsame := hst Outcome.noConfusion
    have hstands : Stands h₀ (p + k) 1
        (.code (runBy nextWord k (runBy nextWord p h₀).hart).hart.gip) := by
      have := @Stands.code h₀ (p + k)
      rwa [hadd] at this
    refine Or.inr ⟨hmem, by rw [hadd]; exact htr', 1, ⟨?_, hcode', hstands⟩, by omega⟩
    rw [hadd]
    exact hr'.of_cpu hsame.cpu hsame.mem

/-- One more step. -/
lemma Abreast.step {ev : List Event} (ha : Abreast h₀ N (ev, x)) (hs : NeverStale h₀)
    (hp : Always Proper h₀) (e : Entry) :
    Abreast h₀ (N + 1) (ev ++ (step (helperEnv other clobber) e x).1,
      (step (helperEnv other clobber) e x).2) := by
  obtain ⟨p, hraised | ⟨hacc, htr, w, hat, hle⟩⟩ := ha
  · have hplace : x.place = .trap := hraised.place
    have hstep : Engine.step (helperEnv other clobber) e x = ([], x) := by
      simp only [Engine.step, hplace]
    rw [hstep, List.append_nil]
    exact ⟨p, Or.inl hraised⟩
  · obtain ⟨s, place, code⟩ := x
    cases place with
    | trap => exact absurd rfl hat.place.1
    | panic => exact absurd rfl hat.place.2
    | code gip =>
      obtain ⟨rfl, hev, hat'⟩ := hat.step_code hs hp htr e
      rw [hev, List.append_nil]
      exact ⟨p, Or.inr ⟨hacc, htr, 0, hat', by omega⟩⟩
    | block r b => exact hat.step_block hs hp htr hacc hle e

end Engine

end Rv32jit.Runtime
