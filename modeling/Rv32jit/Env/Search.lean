/-
# Mappings at a place that is searched for

The nested loops of `mmu::mmap` come to an end after at most one wrap-around, whatever the page
bitmap, the hint and the answers of the host.  The range that they return is in the guest's memory
and was free, and all others that the host has given are back.
-/
import Rv32jit.Env.FreeRange
import Rv32jit.Env.Frame

namespace Rv32jit.Env

namespace Host

variable {h h' : Host} {addr len p : ℕ}

lemma free_iff : h.free addr len ↔
    ∀ p, addr / PAGE_SIZE ≤ p → p < (addr + len) / PAGE_SIZE → h.pages p = none := by
  rw [free, List.all_eq_true]
  constructor
  · intro hall p h1 h2
    exact Option.isNone_iff_eq_none.mp (hall p (List.mem_range'_1.mpr ⟨h1, by omega⟩))
  · intro hall p hp
    obtain ⟨h1, h2⟩ := List.mem_range'_1.mp hp
    exact Option.isNone_iff_eq_none.mpr (hall p h1 (by omega))

/-- A view of all bytes tells the pages. -/
lemma pages_of_keeps {P : ℕ → Prop} (hk : Keeps P h h') (hp : P (p * PAGE_SIZE)) :
    h'.pages p = h.pages p := by
  have hview := congrArg (Option.map Prod.fst) (hk (p * PAGE_SIZE) hp)
  rwa [view, view, Nat.mul_div_cancel _ (by decide), Option.map_map, Option.map_map,
    show Prod.fst ∘ (fun pg : Page => (pg, h'.mem (p * PAGE_SIZE))) = id from rfl,
    show Prod.fst ∘ (fun pg : Page => (pg, h.mem (p * PAGE_SIZE))) = id from rfl,
    Option.map_id, id, id] at hview

end Host

namespace Mmu

open Host (Keeps Outside)

variable {m m' : Mmu} {vaddr len plen paddr prot flags fd : BitVec 32} {offs : ℕ}
  {h h1 : Host} {w : Bool} {i j : ℕ}

/-- The request by which the search looks for a range. -/
def probe (h : Host) (len : BitVec 32) : Option ℕ × Host :=
  h.mmap none len.toNat 0 (MAP_ANON ||| MAP_PRIVATE ||| MAP_NORESERVE) (-1) 0

/-- The last byte of the range that the host has given is in the guest's memory. -/
def Accepted (hptr : ℕ) (len : BitVec 32) : Prop := check_h2g (hptr + len.toNat - 1) = true

variable (m len) in
/-- The state at the start of the inner loop, after `i` ranges that have been given back and `j`
wrap-arounds: the host, `paddr` and `paddr_wrapped`. -/
inductive Loops : ℕ → ℕ → Host → BitVec 32 → Bool → Prop
  | start : Loops 0 0 m.host m.mmap_hint_page false
  | wrap {i j : ℕ} {h : Host} {paddr : BitVec 32} :
      Loops i j h paddr false → m.lookupFreeRange paddr (len >>> PAGE_BITS) = 0 →
      Loops i (j + 1) h firstPage true
  | again {i j hptr : ℕ} {h h1 h2 : Host} {paddr p : BitVec 32} {w : Bool} :
      Loops i j h paddr w → m.lookupFreeRange paddr (len >>> PAGE_BITS) = p → p ≠ 0 →
      ¬ (w ∧ m.mmap_hint_page < p) → probe h len = (some hptr, h1) → ¬ Accepted hptr len →
      h1.munmap hptr len.toNat = (true, h2) → Loops (i + 1) j h2 (p + len >>> PAGE_BITS) w

/-- The number of the page of an address. -/
lemma toNat_pageNumber (x : BitVec 32) : (x >>> PAGE_BITS).toNat = x.toNat / PAGE_SIZE := by
  rw [BitVec.toNat_ushiftRight, Nat.shiftRight_eq_div_pow]
  rfl

/-! ### The loops end -/

/-- No range has length 0. -/
lemma lookupLoop_zero {used_pages : ℕ → Bool} {k p : ℕ} {count : BitVec 32}
    (hk : k < (count - 1).toNat + 1) (htop : k < 2 ^ 32) :
    lookupLoop used_pages 0 k p count = 0 := by
  induction k generalizing p count with
  | zero => rfl
  | succ k ih =>
    have hne : count - 1 ≠ 0 := by
      rw [ne_zero_iff]
      omega
    rw [lookupLoop, if_neg hne]
    refine ih ?_ (by omega)
    split
    · rw [show ((0 : BitVec 32) - 1).toNat = 2 ^ 32 - 1 from rfl]
      omega
    · have hone : (1 : BitVec 32).toNat = 1 := rfl
      rw [BitVec.toNat_sub_of_le (BitVec.le_def.mpr (by omega)), hone]
      omega

/-- A range that is found is no earlier than where the search has started, and not empty. -/
lemma lookupFreeRange_bounds {p : BitVec 32} (hp : m.lookupFreeRange paddr plen = p)
    (hne : p ≠ 0) :
    1 ≤ plen.toNat ∧ paddr.toNat ≤ p.toNat ∧ p.toNat + plen.toNat ≤ PAGES := by
  have hplen : 1 ≤ plen.toNat := by
    by_contra hlt
    have hzero : plen = 0 := BitVec.eq_of_toNat_eq (show plen.toNat = 0 by omega)
    subst hzero
    rw [lookupFreeRange, lookupLoop_zero] at hp
    · exact hne hp.symm
    · show PAGES - paddr.toNat < 2 ^ 32 - 1 + 1
      have hpages : PAGES = 2 ^ 20 := rfl
      omega
    · have hpages : ASPACE_SIZE / PAGE_SIZE = 2 ^ 20 := rfl
      omega
  rcases m.lookupFreeRange_spec paddr hplen with ⟨⟨hle, hc⟩, -⟩ | ⟨hzero, -⟩
  · rw [hp] at hle hc
    exact ⟨hplen, hle, hc.1⟩
  · rw [hp] at hzero
    exact absurd hzero (ne_zero_iff.mp hne)

/-- Each range that is given back moves the search on by a page, and it wraps around once. -/
lemma Loops.progress (hl : m.Loops len i j h paddr w) :
    (w = false → j = 0 ∧ (i = 0 ∨ i ≤ paddr.toNat ∧ paddr.toNat ≤ PAGES)) ∧
      (w = true → j = 1 ∧ i + 16 ≤ PAGES + paddr.toNat ∧ paddr.toNat ≤ PAGES) := by
  have hpages : PAGES = 2 ^ 20 := rfl
  induction hl with
  | start => exact ⟨fun _ => ⟨rfl, Or.inl rfl⟩, fun hw => by cases hw⟩
  | wrap hl hp ih =>
    obtain ⟨hj, hi⟩ := ih.1 rfl
    have hfirst : firstPage.toNat = 16 := rfl
    exact ⟨fun hw => (by cases hw), fun _ => ⟨by omega, by omega, by omega⟩⟩
  | @again i j hptr h h1 h2 paddr p w hl hp hne hw hprobe hacc hback ih =>
    obtain ⟨hplen, hle, htop⟩ := lookupFreeRange_bounds hp hne
    have hnext : (p + len >>> PAGE_BITS).toNat = p.toNat + (len >>> PAGE_BITS).toNat := by
      rw [BitVec.toNat_add]
      exact Nat.mod_eq_of_lt (by omega)
    rw [hnext]
    refine ⟨fun hf => ⟨(ih.1 hf).1, Or.inr ?_⟩, fun ht => ⟨(ih.2 ht).1, ?_⟩⟩
    · have hi := (ih.1 hf).2
      omega
    · have hi := (ih.2 ht).2
      omega

/-- The bound on the rounds, and on the wrap-arounds. -/
lemma Loops.bounded (hl : m.Loops len i j h paddr w) : i ≤ 2 * PAGES ∧ j ≤ 1 := by
  have hpages : PAGES = 2 ^ 20 := rfl
  have hp := hl.progress
  cases w with
  | false =>
    obtain ⟨hj, hi⟩ := hp.1 rfl
    omega
  | true =>
    obtain ⟨hj, hi⟩ := hp.2 rfl
    omega

/-- All ranges but the last one have been given back. -/
lemma Loops.keeps (hl : m.Loops len i j h paddr w) (hlen : len.toNat % PAGE_SIZE = 0)
    (P : ℕ → Prop) : Keeps P m.host h := by
  induction hl with
  | start => exact .refl P _
  | wrap hl hp ih => exact ih
  | @again i j hptr h h1 h2 paddr p w hl hp hne hw hprobe hacc hback ih =>
    obtain ⟨haddr, -, hfree, content, rfl⟩ := Host.mmap_anywhere_eq_some hprobe
    refine ih.trans ?_
    rw [Host.munmap] at hback
    split at hback
    · cases hback
    · split at hback
      · cases hback
      · cases hback
        exact Host.keeps_unplace_place content haddr hlen hfree

/-! ### What they come to -/

/-- The search has given up: it has wrapped around, and come round to the hint. -/
def GivesUp (m : Mmu) (len paddr : BitVec 32) : Prop :=
  m.lookupFreeRange paddr (len >>> PAGE_BITS) = 0 ∨
    m.mmap_hint_page < m.lookupFreeRange paddr (len >>> PAGE_BITS)

/-- The host has refused a range, or to take one back. -/
def Refused (h : Host) (len : BitVec 32) : Prop :=
  (probe h len).1 = none ∨ ∃ hptr h1, probe h len = (some hptr, h1) ∧ ¬ Accepted hptr len ∧
    (h1.munmap hptr len.toNat).1 = false

/-- The inner loop finds the next free range, after a wrap-around perhaps. -/
lemma Loops.nextRange_some {p : BitVec 32} {w' : Bool} (hl : m.Loops len i j h paddr w)
    (hn : m.nextRange (len >>> PAGE_BITS) paddr w = some (p, w')) :
    ∃ j' paddr', m.Loops len i j' h paddr' w' ∧
      m.lookupFreeRange paddr' (len >>> PAGE_BITS) = p ∧ p ≠ 0 ∧
      ¬ (w' ∧ m.mmap_hint_page < p) := by
  rw [nextRange] at hn
  split at hn
  · cases hn
  · rename_i hgo
    split at hn
    · rename_i hne
      cases hn
      exact ⟨j, paddr, hl, rfl, hne, fun hw => hgo ⟨hw.1, Or.inr hw.2⟩⟩
    · rename_i hzero
      have hzero := not_not.mp hzero
      simp only at hn
      split at hn
      · cases hn
      · rename_i hgo'
        cases hn
        have hw : w = false := Bool.eq_false_iff.mpr fun hw => hgo ⟨hw, Or.inl hzero⟩
        subst hw
        exact ⟨j + 1, firstPage, hl.wrap hzero, rfl, fun h0 => hgo' (Or.inl h0),
          fun hw => hgo' (Or.inr hw.2)⟩

lemma Loops.nextRange_none (hl : m.Loops len i j h paddr w)
    (hn : m.nextRange (len >>> PAGE_BITS) paddr w = none) :
    ∃ j' paddr', m.Loops len i j' h paddr' true ∧ m.GivesUp len paddr' := by
  rw [nextRange] at hn
  split at hn
  · rename_i hstop
    rw [hstop.1] at hl
    exact ⟨j, paddr, hl, hstop.2⟩
  · rename_i hgo
    split at hn
    · cases hn
    · rename_i hzero
      have hzero := not_not.mp hzero
      have hw : w = false := Bool.eq_false_iff.mpr fun hw => hgo ⟨hw, Or.inl hzero⟩
      subst hw
      simp only at hn
      split at hn
      · rename_i hstop
        exact ⟨j + 1, firstPage, hl.wrap hzero, hstop⟩
      · cases hn

/-- What the nested loops come to: a range that is accepted, or none, or a panic. -/
inductive SearchDone (m : Mmu) (len : BitVec 32) : Option (Option ℕ × Mmu) → Prop
  | found {i j hptr : ℕ} {h h1 : Host} {paddr : BitVec 32} {w : Bool} :
      m.Loops len i j h paddr w → m.lookupFreeRange paddr (len >>> PAGE_BITS) ≠ 0 →
      probe h len = (some hptr, h1) → Accepted hptr len →
      SearchDone m len (some (some hptr, { m with host := h1 }))
  | failed {i j : ℕ} {h : Host} {paddr : BitVec 32} :
      m.Loops len i j h paddr true → m.GivesUp len paddr →
      SearchDone m len (some (none, { m with host := h }))
  | panic {i j : ℕ} {h : Host} {paddr : BitVec 32} {w : Bool} :
      m.Loops len i j h paddr w → Refused h len → SearchDone m len none

/-- The rounds that are left suffice. -/
lemma Loops.search {n : ℕ} (hl : m.Loops len i j h paddr w) (hn : searchRounds ≤ i + n) :
    m.SearchDone len
      (search len (len >>> PAGE_BITS) n { m with host := h } paddr w) := by
  induction n generalizing i j h paddr w with
  | zero =>
    have hi := hl.bounded.1
    have hrounds : searchRounds = 2 * PAGES + 2 := rfl
    omega
  | succ n ih =>
    rw [Mmu.search]
    rcases hnext : nextRange { m with host := h } (len >>> PAGE_BITS) paddr w
      with _ | ⟨p, w'⟩
    · obtain ⟨j', paddr', hl', hstop⟩ := hl.nextRange_none hnext
      exact .failed hl' hstop
    obtain ⟨j', paddr', hl', hp, hne, hgo⟩ := hl.nextRange_some hnext
    simp only
    rcases hm : h.mmap none len.toNat 0 (MAP_ANON ||| MAP_PRIVATE ||| MAP_NORESERVE) (-1) 0
      with ⟨_ | hptr, h1⟩
    · refine .panic hl' (Or.inl ?_)
      rw [probe, hm]
    · simp only
      split
      · rename_i hacc
        exact .found hl' (by rwa [hp]) hm hacc
      · rename_i hacc
        rcases hu : h1.munmap hptr len.toNat with ⟨_ | _, h2⟩
        · exact .panic hl' (Or.inr ⟨hptr, h1, hm, hacc, by rw [hu]⟩)
        · exact ih (hl'.again hp hne hgo hm hacc hu) (by omega)

/-- The range lies in the guest's memory and overlaps no mapping of `m`; no other page has been
mapped or given back, and the hint is the page after the range.  The bitmap has been told of the
range. -/
structure Landed (m : Mmu) (len : BitVec 32) (hptr : ℕ) (m' : Mmu) : Prop where
  nonempty : len ≠ 0
  inside : hptr + len.toNat ≤ ASPACE_SIZE
  apart : ∀ p, Host.InPages hptr len.toNat p → m.host.pages p = none
  mapped : ∀ p, Host.InPages hptr len.toNat p → (m'.host.pages p).isSome
  others : ∀ p, ¬ Host.InPages hptr len.toNat p → m'.host.pages p = m.host.pages p
  hint : m'.mmap_hint_page.toNat = (hptr + len.toNat) / PAGE_SIZE
  told : m'.used_pages =
    (m.markUsedPages (BitVec.ofNat 32 hptr >>> PAGE_BITS) (len >>> PAGE_BITS)).used_pages

/-- The mapping is refused at the place that has been found for it. -/
def Lost (m : Mmu) (len prot flags fd : BitVec 32) (offs : ℕ) : Prop :=
  ∃ i j h paddr w hptr h1, m.Loops len i j h paddr w ∧ probe h len = (some hptr, h1) ∧
    Accepted hptr len ∧
    (h1.mmap (some hptr) len.toNat prot (flags ||| MAP_FIXED) fd offs).1 = none

/-- What a mapping comes to whose place is searched for: a range, `MAP_FAILED` with nothing
mapped, or a panic for which there is a reason. -/
inductive AnywhereDone (m : Mmu) (len prot flags fd : BitVec 32) (offs : ℕ) :
    Option (Option ℕ × Mmu) → Prop
  | landed {hptr : ℕ} {m' : Mmu} :
      m.Landed len hptr m' → AnywhereDone m len prot flags fd offs (some (some hptr, m'))
  | failed {i j : ℕ} {h : Host} {paddr : BitVec 32} {m' : Mmu} :
      m.Loops len i j h paddr true → m.GivesUp len paddr → m'.host.pages = m.host.pages →
      m'.used_pages = m.used_pages → m'.mmap_hint_page = m.mmap_hint_page →
      AnywhereDone m len prot flags fd offs (some (none, m'))
  | panic {i j : ℕ} {h : Host} {paddr : BitVec 32} {w : Bool} :
      m.Loops len i j h paddr w → Refused h len → AnywhereDone m len prot flags fd offs none
  | lost : m.Lost len prot flags fd offs → AnywhereDone m len prot flags fd offs none

/-- A range that the loops have accepted. -/
lemma Loops.accepted {hptr : ℕ} (hl : m.Loops len i j h paddr w)
    (hlen : len.toNat % PAGE_SIZE = 0) (hprobe : probe h len = (some hptr, h1))
    (hacc : Accepted hptr len) :
    hptr % PAGE_SIZE = 0 ∧ hptr + len.toNat ≤ ASPACE_SIZE ∧
      (∀ p, Host.InPages hptr len.toNat p → m.host.pages p = none) ∧
      ∀ p, ¬ Host.InPages hptr len.toNat p → h1.pages p = m.host.pages p := by
  obtain ⟨haddr, htop, hfree, content, rfl⟩ := Host.mmap_anywhere_eq_some hprobe
  have hsame : ∀ p, h.pages p = m.host.pages p := fun p =>
    Host.pages_of_keeps (hl.keeps hlen fun _ => True) trivial
  refine ⟨haddr, ?_, fun p hp => ?_, fun p hp => ?_⟩
  · rw [Accepted, check_h2g, decide_eq_true_eq] at hacc
    simp only [ASPACE_SIZE, PAGE_SIZE] at *
    omega
  · rw [← hsame]
    exact Host.free_iff.mp hfree p hp.1 hp.2
  · rw [← hsame]
    exact if_neg hp

variable (m prot flags fd offs) in
lemma mmapAnywhere_done (hlen : len.toNat % PAGE_SIZE = 0) :
    m.AnywhereDone len prot flags fd offs (m.mmapAnywhere len prot flags fd offs) := by
  have hstart : m.Loops len 0 0 m.host m.mmap_hint_page false := .start
  have hdone : m.SearchDone len
      (search len (len >>> PAGE_BITS) searchRounds m m.mmap_hint_page false) :=
    hstart.search (Nat.le_add_left _ _)
  rw [mmapAnywhere]
  generalize search len (len >>> PAGE_BITS) searchRounds m m.mmap_hint_page false = o at hdone
  cases hdone with
  | panic hl hr => exact .panic hl hr
  | failed hl hstop =>
    refine .failed hl hstop (funext fun p => ?_) rfl rfl
    exact Host.pages_of_keeps (hl.keeps hlen fun _ => True) trivial
  | @found i j hptr h h1 paddr w hl hne hprobe hacc =>
    obtain ⟨haddr, htop, hapart, hothers⟩ := hl.accepted hlen hprobe hacc
    simp only
    rcases Host.mmap_fixed_cases h1 hptr len.toNat prot (flags ||| MAP_FIXED) fd offs
      with ⟨hnone, e, heq⟩ | ⟨content, -, -, heq⟩
    · rw [show h1.mmap (some hptr) len.toNat prot (flags ||| MAP_FIXED) fd offs = (none, h1.fail e)
        from Prod.ext hnone heq]
      exact .lost ⟨i, j, h, paddr, w, hptr, h1, hl, hprobe, hacc, hnone⟩
    · rw [heq]
      have hpos := (lookupFreeRange_bounds rfl hne).1
      rw [toNat_pageNumber] at hpos
      simp only [PAGE_SIZE] at hpos
      refine .landed
        ⟨ne_zero_iff.mpr (by omega), htop, hapart, fun p hp => ?_, fun p hp => ?_, ?_, rfl⟩
      · have hpg : (h1.place hptr len.toNat prot content).pages p = some ⟨prot, h1.calls⟩ :=
          if_pos hp
        exact Option.isSome_of_eq_some hpg
      · rw [← hothers p hp]
        exact if_neg hp
      · show ((BitVec.ofNat 32 hptr) >>> PAGE_BITS + len >>> PAGE_BITS).toNat = _
        rw [BitVec.toNat_add, toNat_pageNumber, toNat_pageNumber, BitVec.toNat_ofNat]
        simp only [ASPACE_SIZE, PAGE_SIZE] at *
        omega

lemma mmap_done (m : Mmu) (vaddr len prot flags fd : BitVec 32) (offs : ℕ)
    (hin : InAspace vaddr len) (hflags : flags &&& MAP_FIXED = 0) :
    m.AnywhereDone (roundupPage len) prot flags fd offs
      (m.mmap vaddr len prot flags fd offs) := by
  rw [mmap, if_pos (inAspace_iff.mpr hin)]
  simp only [hflags, ne_eq, not_true_eq_false, if_false]
  exact mmapAnywhere_done m prot flags fd offs (roundupPage_dvd len)

/-- The nested loops of a mapping without `MAP_FIXED` end after at most one wrap-around, with all
ranges given back that were not accepted; and the mapping, if there is one, is in the guest's
memory, in place of none, and the hint is the page after it. -/
theorem mmap_searches (m : Mmu) (vaddr len prot flags fd : BitVec 32) (offs : ℕ)
    (hin : InAspace vaddr len) (hflags : flags &&& MAP_FIXED = 0) :
    (∀ i j h paddr w, m.Loops (roundupPage len) i j h paddr w →
      i ≤ 2 * PAGES ∧ j ≤ 1 ∧ h.pages = m.host.pages) ∧
    m.AnywhereDone (roundupPage len) prot flags fd offs
      (m.mmap vaddr len prot flags fd offs) := by
  refine ⟨fun i j h paddr w hl => ?_, mmap_done m vaddr len prot flags fd offs hin hflags⟩
  refine ⟨hl.bounded.1, hl.bounded.2, funext fun p => ?_⟩
  exact Host.pages_of_keeps (hl.keeps (roundupPage_dvd len) fun _ => True) trivial

/-- A host that puts the first range outside the guest's memory, and the second one inside. -/
def farMmu : Mmu :=
  .init (fun _ => none) (fun n => .placed (if n = 1 then 2 ^ 40 else 0x50000000)) 0

/-- The first range is given back, and the second one is returned. -/
theorem mmap_searches_far : ∃ m', farMmu.mmap 0 0x1000 3 (MAP_ANON ||| MAP_PRIVATE) (-1) 0 =
    some (some 0x50000000, m') ∧ farMmu.Landed (roundupPage 0x1000) 0x50000000 m' := by
  have hrun : (farMmu.mmap 0 0x1000 3 (MAP_ANON ||| MAP_PRIVATE) (-1) 0).map (·.1) =
      some (some 0x50000000) := by decide +kernel
  obtain ⟨⟨r, m'⟩, heq, hr⟩ := Option.map_eq_some_iff.mp hrun
  simp only at hr
  subst hr
  have hdone := (mmap_searches farMmu 0 0x1000 3 (MAP_ANON ||| MAP_PRIVATE) (-1) 0
    ⟨by decide, by decide⟩ (by decide)).2
  rw [heq] at hdone
  cases hdone with
  | landed hland => exact ⟨m', heq, hland⟩

end Mmu

end Rv32jit.Env
