/-
# The machine refines the guest

What the whole machine is for: the guest is a hart that executes, one after the other, the words
that its own memory holds, and a kernel that answers its calls.  Every run of the machine is such a
run of the guest, over the same instructions, as long as no instruction is stale, no jump goes to a
misaligned target and no load to `x0` has offset zero.
-/
import Rv32jit.Runtime.Resume

namespace Rv32jit.Runtime

open Qir Insn CPUState Translate Interp TCache Jit Machine

/-! ### The guest -/

/-- The hart, and whether it has trapped. -/
structure Guest where
  hart : Hart
  trapped : Bool := false

namespace Guest

/-- An instruction that is executed: its address, its word and its accesses to memory. -/
abbrev Insn : Type := BitVec 32 × BitVec 32 × List Access

/-- A step of the guest, with the instruction that it executes.  A call leaves open what it does to
the memory. -/
inductive Step : Guest → List Insn → Guest → Prop
  | insn (h : Hart) :
      Step ⟨h, false⟩ [(h.gip, word h.mem h.gip, (step (word h.mem h.gip) h).acc)]
        ⟨(step (word h.mem h.gip) h).hart, (step (word h.mem h.gip) h).trapped⟩
  | ecall {h : Hart} (htrap : trapno h.cpu = TrapCode.ECALL.toBits) (rc : BitVec 32)
      (mem : ByteMem) : Step ⟨h, true⟩ []
        ⟨⟨syscallLinux (setIp h.cpu (ip h.cpu + 4)) rc, ip h.cpu + 4, mem⟩, false⟩

/-- A run of the guest, with the instructions that it executes. -/
inductive Run (g : Guest) : List Insn → Guest → Prop
  | nil : Run g [] g
  | step {g' g'' : Guest} {l l' : List Insn} (hrun : Run g l g')
      (hstep : Step g' l' g'') : Run g (l ++ l') g''

/-- A run without calls. -/
inductive Exec (g : Guest) : List Insn → Guest → Prop
  | nil : Exec g [] g
  | step {g' g'' : Guest} {l l' : List Insn} (hrun : Exec g l g') (htr : g'.trapped = false)
      (hstep : Step g' l' g'') : Exec g (l ++ l') g''

variable {g g' g'' : Guest} {l l' : List Insn}

lemma Run.single (h : Step g l g') : Run g l g' := Run.nil.step h

lemma Exec.single (htr : g.trapped = false) (h : Step g l g') : Exec g l g' := Exec.nil.step htr h

lemma Exec.trans (h : Exec g l g') (h' : Exec g' l' g'') : Exec g (l ++ l') g'' := by
  induction h' with
  | nil =>
    rw [List.append_nil]
    exact h
  | step _ htr hstep ih =>
    rw [← List.append_assoc]
    exact ih.step htr hstep

lemma Run.trans (h : Run g l g') (h' : Run g' l' g'') : Run g (l ++ l') g'' := by
  induction h' with
  | nil =>
    rw [List.append_nil]
    exact h
  | step _ hstep ih =>
    rw [← List.append_assoc]
    exact ih.step hstep

lemma Exec.run (h : Exec g l g') : Run g l g' := by
  induction h with
  | nil => exact .nil
  | step _ _ hstep ih => exact ih.step hstep

end Guest

/-! ### Blocks -/

/-- The instruction is the one in the memory, and both engines execute it alike. -/
structure Faithful (f : Fetch) : Prop where
  current : f.raw = word f.mem f.ip
  load : isX0Load (family (decode f.raw)) f.raw = false
  aligned : misaligned f.raw ⟨f.cpu, f.ip, f.mem⟩ = false

/-- The instruction, with the accesses that it makes in its state. -/
def insnOf (f : Fetch) : Guest.Insn := (f.ip, f.raw, (step f.raw ⟨f.cpu, f.ip, f.mem⟩).acc)

variable {prog : BitVec 32 → BitVec 32} {t : Translator} {k b : ℕ} {a : BitVec 32}
  {code : List Inst} {succs : List ℕ} {h : Hart} {s s' : QState} {fs : List Fetch}
  {ev : List Event} {out : Outcome}
  {other : RuntimeStubId → BitVec 32 → ByteMem → ByteMem → HelperRes}
  {clobber : RuntimeStubId → (ℕ → BitVec 32) → ByteMem → ByteMem → ℕ → BitVec 32}

/-- Whether an instruction is misaligned does not depend on the instruction pointer. -/
lemma misaligned_of_rel (raw : BitVec 32) (hr : Rel h s) (a : BitVec 32) :
    misaligned raw ⟨s.cpu, a, s.mem⟩ = misaligned raw h := by
  have hgpr : ∀ {i}, i < 32 → Hart.gpr ⟨s.cpu, a, s.mem⟩ i = h.gpr i := fun hi => hr.gpr hi
  simp only [misaligned]
  cases family (decode raw) with
  | jalr => simp only [hgpr (rs1_lt raw)]
  | brcc cc => simp only [hgpr (rs1_lt raw), hgpr (rs2_lt raw)]
  | _ => rfl

/-- The accesses are those of the body of the handler. -/
lemma acc_step (raw : BitVec 32) (h : Hart) :
    (step raw h).acc = (implFamily (family (decode raw)) raw
      (if (family (decode raw)).saves then { h with cpu := setIp h.cpu h.gip } else h)).acc := by
  rw [Interp.step, handler_family, handlerFamily]
  generalize implFamily _ raw _ = r
  cases ht : r.trapped <;> simp only [if_true, Bool.false_eq_true, if_false]

/-- The accesses of an instruction do not depend on the instruction pointer either. -/
lemma acc_of_rel (raw : BitVec 32) (hr : Rel h s) (a : BitVec 32) :
    (step raw ⟨s.cpu, a, s.mem⟩).acc = (step raw h).acc := by
  have hgpr : ∀ {i}, i < 32 → gpr (setIp s.cpu a) i = gpr (setIp h.cpu h.gip) i := by
    intro i hi
    rw [gpr_setIp _ hi, gpr_setIp _ hi]
    exact hr.gpr hi
  rw [acc_step, acc_step]
  cases family (decode raw) with
  | load sz sgn =>
    simp only [implFamily, implLoad, Family.saves, if_true, Hart.gpr, hgpr (rs1_lt raw), hr.mem]
  | store sz =>
    simp only [implFamily, implStore, Family.saves, if_true, Hart.gpr, hgpr (rs1_lt raw),
      hgpr (rs2_lt raw)]
  | jal | jalr | brcc =>
    simp only [implFamily, implJal, implJalr, implBranch, raiseTrap, apply_ite Res.acc, ite_self]
  | _ => simp only [implFamily, implLui, implAuipc, raiseTrap]

/-- An instruction of a program that the memory holds is a step of the guest. -/
lemma Faithful.step (hf : Faithful (fetch prog a s)) (hr : Rel h s) (hip : h.gip = a) :
    isX0Load (family (decode (prog h.gip))) (prog h.gip) = false ∧
      misaligned (prog h.gip) h = false ∧
      Guest.Step ⟨h, false⟩ [insnOf (fetch prog a s)]
        ⟨(step (prog h.gip) h).hart, (step (prog h.gip) h).trapped⟩ := by
  subst hip
  have hword : prog h.gip = word h.mem h.gip := by
    rw [← hr.mem]
    exact hf.current
  refine ⟨hf.load, (misaligned_of_rel _ hr h.gip).symm.trans hf.aligned, ?_⟩
  rw [insnOf, fetch, acc_of_rel _ hr, hword]
  exact .insn h

/-- Code for some instructions does what the guest does, if it is not stuck. -/
lemma executes_guest (hx : Executes prog (helperEnv other clobber) t k a code succs s fs)
    (hvi : t.region.vregsInfo.globInfo = stateInfo) (hr : Rel h s) (hip : h.gip = a)
    (hfs : ∀ f ∈ fs, Faithful f)
    (hlive : leave succs (execList (helperEnv other clobber) t.region.vregsInfo code s).2.1 ≠
      .stuck) :
    ∃ r, Guest.Exec ⟨h, false⟩ (fs.map insnOf) ⟨r.hart, r.trapped⟩ ∧
      Does (helperEnv other clobber) t code succs s r := by
  induction hx generalizing h with
  | @step k a tmp code succs s s' ev fs hend h32 hrun hrest ih =>
    obtain ⟨hx0, -, hstep⟩ := (hfs _ List.mem_cons_self).step hr hip
    subst hip
    obtain ⟨ev', hag⟩ := insnCode_agrees other clobber (prog h.gip) hend hx0 hvi h32 hr rfl
    obtain ⟨s₁, hrun', hr'⟩ := hag.runs
    -- the code has one run only
    obtain rfl := hrun.unique hrun'
    rw [hrun code] at hlive
    rw [show (step (prog h.gip) h).trapped = false from hag.trapped] at hstep
    obtain ⟨r, hguest, hdoes⟩ :=
      ih hr' hag.gip (fun f hf => hfs f (List.mem_cons_of_mem _ hf)) hlive
    exact ⟨{ r with acc := (step (prog h.gip) h).acc ++ r.acc },
      (Guest.Exec.single rfl hstep).trans hguest, .of_runs hrun' hag.acc hdoes⟩
  | @leave k a tmp code succs s h32 hfl hleave =>
    obtain ⟨-, -, hstep⟩ := (hfs _ List.mem_cons_self).step hr hip
    subst hip
    rw [hleave] at hlive
    have htrap := hfl.resolve_right fun hs => hlive (by rw [hs]; rfl)
    obtain ⟨stub, trap, hf, -⟩ := trap_insnCode htrap
    obtain ⟨ht, hacc, ev, s', hexec, hev, hcpu, hmem⟩ := insnCode_traps other clobber
      (prog h.gip) t.region.vregsInfo tmp hf hr rfl code
    refine ⟨step (prog h.gip) h, .single rfl hstep, ?_⟩
    rw [Does, hexec]
    exact ⟨⟨ht, hcpu, hmem⟩, by rw [hev]; exact hacc.symm⟩
  | @last k a code succs s hk hc hend =>
    obtain ⟨hx0, hm, hstep⟩ := (hfs _ List.mem_cons_self).step hr hip
    obtain rfl : k = 1 := by
      cases hc with
      | step hend' =>
        rw [hend'] at hend
        cases hend
      | cut => exact absurd rfl hk
      | _ => rfl
    have hdoes : Does (helperEnv other clobber) t code succs s (Interp.run prog 1 h) :=
      hc.does hvi hr hip ⟨hx0, hm, fun _ => trivial⟩
    rw [run_one] at hdoes
    exact ⟨_, .single rfl hstep, hdoes⟩
  | cut hjump => exact ⟨{ hart := h }, .nil, .jump hjump hr hip⟩

/-- A block of a compiled region does what the guest does. -/
lemma RegionCode.guest (rc : RegionCode)
    (hfs : BlockExecutes rc.prog (helperEnv other clobber) rc.t b a s fs) (hr : Rel h s)
    (hip : h.gip = a) (hok : ∀ f ∈ fs, Faithful f)
    (hexec : execBlock (helperEnv other clobber) rc.r b s = (ev, out, s')) (hout : out ≠ .stuck) :
    ∃ r, Guest.Exec ⟨h, false⟩ (fs.map insnOf) ⟨r.hart, r.trapped⟩ ∧ Follows rc.t out s' r := by
  obtain ⟨-, hout', hst⟩ := rc.spec.same (helperEnv other clobber) b s s ⟨rfl, rfl⟩
  rw [hexec] at hout' hst
  change out = _ at hout'
  -- the same of the region that has been translated
  obtain ⟨r, hguest, hfol⟩ : ∃ r, Guest.Exec ⟨h, false⟩ (fs.map insnOf) ⟨r.hart, r.trapped⟩ ∧
      Follows rc.t out (execBlock (helperEnv other clobber) rc.t.region b s).2.2 r := by
    rw [hout'] at hout ⊢
    rcases hfs with ⟨k, code, succs, -, hblk, -, hx⟩ | ⟨-, hblk, rfl⟩
    · simp only [execBlock, hblk] at hout ⊢
      obtain ⟨r, hguest, hfol, -⟩ := executes_guest hx rc.spec.globInfo hr hip hok hout
      exact ⟨r, hguest, hfol⟩
    · simp only [execBlock, hblk]
      have hdoes : Does (helperEnv other clobber) rc.t [.mkGBr a] [] s { hart := h } :=
        .jump .gbr hr hip
      exact ⟨_, .nil, hdoes.1⟩
  have hsame := hst (hout' ▸ hout)
  refine ⟨r, hguest, ?_⟩
  cases out with
  | stuck => exact absurd rfl hout
  | trap =>
    obtain ⟨htr, hcpu, hmem⟩ := hfol
    exact ⟨htr, hsame.cpu.trans hcpu, hsame.mem.trans hmem⟩
  | _ => exact ⟨hfol.1, hfol.2.1, hfol.2.2.of_cpu hsame.cpu hsame.mem⟩

/-! ### The machine -/

/-- The guest is where the machine stands after the instructions `H` from `ip₀` on.  Inside
translated code only the instruction pointer in the CPU state may be another. -/
structure Matches (ip₀ : BitVec 32) (H : List Fetch) (m : Machine) (g : Guest) : Prop where
  running : trapno m.s.cpu = TrapCode.NONE.toBits →
    g.trapped = false ∧ Rel g.hart m.s ∧ g.hart.gip = resume ip₀ H
  trapped : trapno m.s.cpu ≠ TrapCode.NONE.toBits →
    g.trapped = true ∧ m.s.cpu = g.hart.cpu ∧ m.s.mem = g.hart.mem

variable {ip₀ : BitVec 32} {H : List Fetch} {m m' : Machine} {g : Guest}

/-- A step that executes nothing, with no trap pending, and changes the instruction pointer at
most. -/
lemma Matches.quiet (hg : Matches ip₀ H m g) (hrun : trapno m.s.cpu = TrapCode.NONE.toBits)
    (hs : SameState m.s m'.s ∨ ∃ gip, SameState { m.s with cpu := setIp m.s.cpu gip } m'.s) :
    Matches ip₀ H m' g := by
  obtain ⟨htr, hr, hgip⟩ := hg.running hrun
  obtain ⟨htrap, hrel⟩ : trapno m'.s.cpu = trapno m.s.cpu ∧ Rel g.hart m'.s := by
    rcases hs with hs | ⟨gip, hs⟩
    · exact ⟨by rw [hs.cpu], hr.of_cpu hs.cpu hs.mem⟩
    · exact ⟨by rw [hs.cpu, (EqReserved.setIp _ _).trapno],
        (hr.setIp_right gip).of_cpu hs.cpu hs.mem⟩
  exact ⟨fun _ => ⟨htr, hrel, hgip⟩, fun hne => absurd (htrap.trans hrun) hne⟩

/-- A machine that goes on and has not trapped on a call runs. -/
lemma Machine.Ok.running (hok : Ok ip₀ H m) (hs : Machine.Step (helperEnv other clobber) m fs m')
    (hne : trapno m.s.cpu ≠ TrapCode.ECALL.toBits) : trapno m.s.cpu = TrapCode.NONE.toBits := by
  cases hs with
  | lookup hrun => exact hrun
  | compile hrun => exact hrun
  | ecall htrap => exact absurd htrap hne
  | _ => exact hok.here.1

/-- One step of a machine that runs is a run of the guest without calls. -/
lemma Matches.exec (hok : Ok ip₀ H m) (hg : Matches ip₀ H m g)
    (hnone : trapno m.s.cpu = TrapCode.NONE.toBits)
    (hs : Machine.Step (helperEnv other clobber) m fs m') (hfs : ∀ f ∈ fs, Faithful f) :
    ∃ g', Guest.Exec g (fs.map insnOf) g' ∧ Matches ip₀ (H ++ fs) m' g' := by
  cases hs with
  | lookup hrun hf hs =>
    rw [List.append_nil]
    exact ⟨g, .nil, hg.quiet hrun (Or.inl hs)⟩
  | compile hrun hf hprog hrange hfit hj hs =>
    rw [List.append_nil]
    exact ⟨g, .nil, hg.quiet hrun (Or.inl hs)⟩
  | linked hsl hs | link hsl hj hs | cached hj hs =>
    rw [List.append_nil]
    exact ⟨g, .nil, hg.quiet hok.here.1 (Or.inl hs)⟩
  | escapeLink hsl hj hs | brind hslow hj hs | escapeBrind hslow hj hs =>
    rw [List.append_nil]
    exact ⟨g, .nil, hg.quiet hok.here.1 (Or.inr ⟨_, hs⟩)⟩
  | @block j code s s' ptr b rc a fs ev out ctl hcode hx hexec hnext =>
    obtain ⟨hrun, rc', hrc', hentry⟩ := hok.here
    obtain rfl : rc' = rc := Option.some.inj (hrc'.symm.trans hcode)
    obtain rfl : a = resume ip₀ H := rc'.spec.entryAt_unique hx.entryAt hentry
    obtain ⟨htr, hr, hgip⟩ := hg.running hrun
    obtain ⟨hart, tr⟩ := g
    obtain rfl : tr = false := htr
    have hout : out ≠ .stuck := by
      rintro rfl
      cases hnext
    obtain ⟨r, hguest, hfol⟩ := rc'.guest hx hr hgip hfs hexec hout
    have hst := stands_of_compiled rc'.spec hx hexec
    refine ⟨_, hguest, ?_⟩
    cases out with
    | stuck => exact absurd rfl hout
    | trap =>
      cases hnext
      obtain ⟨-, -, fs', f, stub, trap, -, hf, htrap, -⟩ := hst
      exact ⟨fun hnone => absurd (htrap.symm.trans hnone) (toBits_of_call hf), fun _ => hfol⟩
    | «at» b' =>
      cases hnext
      obtain ⟨-, hentry', heq⟩ := hst
      refine ⟨fun _ => ⟨hfol.1, hfol.2.2, ?_⟩, fun hne => absurd (heq.trapno.trans hrun) hne⟩
      rw [resume_append]
      exact rc'.spec.entryAt_unique hfol.2.1 hentry'
    | gbr c | gbrind c =>
      cases hnext
      obtain ⟨-, rfl, heq⟩ := hst
      refine ⟨fun _ => ⟨hfol.1, hfol.2.2, ?_⟩, fun hne => absurd (heq.trapno.trans hrun) hne⟩
      rw [resume_append]
      exact hfol.2.1.symm
  | ecall htrap => exact absurd (hnone.symm.trans htrap) (by decide)

/-- After the call that the machine and the guest have trapped on. -/
lemma Matches.call {j : Jit} {regions : ℕ → Option RegionCode}
    (hok : Ok ip₀ H ⟨j, regions, s, .loop none⟩) (hg : Matches ip₀ H ⟨j, regions, s, .loop none⟩ g)
    (htrap : trapno s.cpu = TrapCode.ECALL.toBits) (rc : BitVec 32) (mem : ByteMem)
    (hs : SameState { s with cpu := syscallLinux (setIp s.cpu (ip s.cpu + 4)) rc, mem := mem }
      s') :
    g.trapped = true ∧ g.hart.cpu = s.cpu ∧ g.hart.mem = s.mem ∧
      Matches ip₀ H ⟨j, regions, s', .loop none⟩
        ⟨⟨syscallLinux (setIp s.cpu (ip s.cpu + 4)) rc, ip s.cpu + 4, mem⟩, false⟩ := by
  obtain ⟨htr, hcpu, hmem⟩ := hg.trapped (by rw [htrap]; decide)
  have hstep : Machine.Step noHelper ⟨j, regions, s, .loop none⟩ [] ⟨j, regions, s', .loop none⟩ :=
    .ecall htrap rc mem hs
  have hok' := hok.step hstep
  rw [List.append_nil] at hok'
  have hnone : trapno s'.cpu = TrapCode.NONE.toBits := by
    rw [hs.cpu, syscallLinux, trapno_setGpr _ (by decide), trapno_setTrapno]
  refine ⟨htr, hcpu.symm, hmem.symm, fun _ => ⟨rfl, ⟨?_, hs.mem, ?_⟩, ?_⟩,
    fun hne => absurd hnone hne⟩
  · rw [hs.cpu]
    exact .refl _
  · have hx0 := hok'.x0
    simp only [hs.cpu] at hx0
    exact hx0
  · have hip := hok'.ip_eq hnone
    rw [hs.cpu, syscallLinux, ip_setGpr _ (by decide), ip_setTrapno, ip_setIp] at hip
    exact hip

/-- One step of the machine is a run of the guest. -/
lemma Matches.step (hok : Ok ip₀ H m) (hg : Matches ip₀ H m g)
    (hs : Machine.Step (helperEnv other clobber) m fs m') (hfs : ∀ f ∈ fs, Faithful f) :
    ∃ g', Guest.Run g (fs.map insnOf) g' ∧ Matches ip₀ (H ++ fs) m' g' := by
  by_cases hcall : trapno m.s.cpu = TrapCode.ECALL.toBits
  · cases hs with
    | lookup hrun => exact absurd (hrun.symm.trans hcall) (by decide)
    | compile hrun => exact absurd (hrun.symm.trans hcall) (by decide)
    | ecall htrap rc mem hs =>
      obtain ⟨htr, hcpu, -, hmatch⟩ := hg.call hok htrap rc mem hs
      obtain ⟨⟨cpu, gip, mem'⟩, tr⟩ := g
      obtain rfl : tr = true := htr
      subst hcpu
      rw [List.append_nil]
      exact ⟨_, .single (.ecall htrap rc mem), hmatch⟩
    | _ => exact absurd (hok.here.1.symm.trans hcall) (by decide)
  · obtain ⟨g', hguest, hmatch⟩ := hg.exec hok (hok.running hs hcall) hs hfs
    exact ⟨g', hguest.run, hmatch⟩

/-- Every run of the machine is a run of the guest over the same instructions. -/
lemma Matches.run {m₀ : Machine} {H : List Executed} {g₀ : Guest} (hok : Ok ip₀ [] m₀)
    (hg : Matches ip₀ [] m₀ g₀) (hrun : Machine.Run (helperEnv other clobber) m₀ H m)
    (hfs : ∀ e ∈ H, Faithful e.toFetch) :
    ∃ g, Guest.Run g₀ (H.map fun e => insnOf e.toFetch) g ∧
      Matches ip₀ (H.map Executed.toFetch) m g := by
  induction hrun with
  | nil => exact ⟨g₀, .nil, hg⟩
  | @step H fs m m' hrun hstep ih =>
    obtain ⟨g, hguest, hmatch⟩ := ih fun e he => hfs e (List.mem_append_left _ he)
    obtain ⟨g', hguest', hmatch'⟩ := hmatch.step (hok.run hrun) hstep fun f hf =>
      hfs ⟨f, m.code⟩ (List.mem_append_right _ (List.mem_map_of_mem hf))
    refine ⟨g', ?_, ?_⟩
    · simpa [Function.comp_def] using hguest.trans hguest'
    · simpa [Function.comp_def] using hmatch'

/-- The program that stores the `ecall` that is already there, up to its trap. -/
lemma storeRegion_faithful : ∃ H m, Machine.Run noHelper (start 0 0 (storeState 0x73)) H m ∧
    H.length = 3 ∧ ∀ e ∈ H, Faithful e.toFetch ∧
      (e.raw = 0x00502623#32 ∧ e.cpu = (storeState 0x73).cpu ∨ e.raw = 0x0000100F#32 ∨
        e.raw = 0x00000073#32) := by
  have htrap : (execBlock noHelper storeRegion.r 0 (storeState 0x73)).2.1 = .trap := by
    decide +kernel
  obtain ⟨code, s₁, s₂, m, -, hrun, -, h₁, h₂⟩ := storeRegion_run 0x73 htrap
  have hsame : storeMem.store 12 4 0x73#32 = storeMem := ByteMem.store_store _ _ _ _ _
  -- the memory stays as it is
  have hfaithful : ∀ (a raw : BitVec 32) (s : QState), s.mem = storeMem → word storeMem a = raw →
      isX0Load (family (decode raw)) raw = false → misaligned raw ⟨s.cpu, a, s.mem⟩ = false →
      Faithful (fetch storeRegion.prog a s) := by
    rintro a raw s hs rfl hload hmis
    refine ⟨?_, hload, hmis⟩
    simp only [fetch, hs]
    rfl
  have hw₁ : word storeMem 4 = 0x00502623#32 := by decide +kernel
  have hw₂ : word storeMem (4 + 4) = 0x0000100F#32 := by decide +kernel
  have hw₃ : word storeMem (4 + 4 + 4) = 0x00000073#32 := by decide +kernel
  have hf₁ : family (decode 0x00502623#32) = .store .I32 := rfl
  have hf₂ : family (decode 0x0000100F#32) = .fence .rv32_fencei := rfl
  have hf₃ : family (decode 0x00000073#32) = .call .rv32_ecall .ECALL := rfl
  refine ⟨_, m, hrun, rfl, fun e he => ?_⟩
  simp only [List.mem_cons, List.not_mem_nil, or_false] at he
  rcases he with rfl | rfl | rfl
  · exact ⟨hfaithful _ _ _ rfl hw₁ (by rw [hf₁]; rfl) (by rw [misaligned, hf₁]),
      Or.inl ⟨hw₁, rfl⟩⟩
  · exact ⟨hfaithful _ _ _ (h₁.trans hsame) hw₂ (by rw [hf₂]; rfl) (by rw [misaligned, hf₂]),
      Or.inr (Or.inl hw₂)⟩
  · exact ⟨hfaithful _ _ _ (h₂.trans hsame) hw₃ (by rw [hf₃]; rfl) (by rw [misaligned, hf₃]),
      Or.inr (Or.inr hw₃)⟩

end Rv32jit.Runtime
