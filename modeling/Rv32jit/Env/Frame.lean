/-
# What a request leaves alone

A byte is seen with the page it lies in: its protection, the request that mapped it, and the byte
itself.  A request of the host keeps all bytes that it does not name; the search for a free range
keeps all bytes, wherever the host has put the ranges that were given back.
-/
import Rv32jit.Env.Mmu

namespace Rv32jit.Env

namespace Host

/-- The byte at an address, with its page, if there is one. -/
def view (h : Host) (x : ℕ) : Option (Page × BitVec 8) :=
  (h.pages (x / PAGE_SIZE)).map fun pg => (pg, h.mem x)

/-- The bytes of `P` and their pages are the same in `h'` as in `h`. -/
def Keeps (P : ℕ → Prop) (h h' : Host) : Prop := ∀ x, P x → h'.view x = h.view x

variable {h h' h'' : Host} {P Q : ℕ → Prop} {addr len x : ℕ} {prot flags fd : BitVec 32} {offs : ℕ}

namespace Keeps

lemma refl (P : ℕ → Prop) (h : Host) : Keeps P h h := fun _ _ => rfl

lemma mono (hk : Keeps P h h') (hQP : ∀ x, Q x → P x) : Keeps Q h h' :=
  fun x hx => hk x (hQP x hx)

lemma trans (h1 : Keeps P h h') (h2 : Keeps P h' h'') : Keeps P h h'' :=
  fun x hx => (h2 x hx).trans (h1 x hx)

end Keeps

/-- The addresses outside a range. -/
def Outside (addr len x : ℕ) : Prop := x < addr ∨ addr + len ≤ x

lemma keeps_fail (P : ℕ → Prop) (h : Host) (errno : BitVec 32) : Keeps P h (h.fail errno) :=
  fun _ _ => rfl

lemma keeps_place (content : ByteMem) (haddr : addr % PAGE_SIZE = 0) (hlen : len % PAGE_SIZE = 0) :
    Keeps (Outside addr len) h (h.place addr len prot content) := by
  intro x hx
  rw [Outside] at hx
  have hp : ¬ (addr / PAGE_SIZE ≤ x / PAGE_SIZE ∧ x / PAGE_SIZE < (addr + len) / PAGE_SIZE) := by
    simp only [PAGE_SIZE] at *
    omega
  simp only [view, place, if_neg hp, if_neg (show ¬ (addr ≤ x ∧ x < addr + len) by omega)]

lemma keeps_unplace (h : Host) (addr len : ℕ) :
    Keeps (Outside (addr / PAGE_SIZE * PAGE_SIZE)
      ((addr + len + (PAGE_SIZE - 1)) / PAGE_SIZE * PAGE_SIZE - addr / PAGE_SIZE * PAGE_SIZE)) h
      (h.unplace addr len) := by
  intro x hx
  have hp : ¬ (addr / PAGE_SIZE ≤ x / PAGE_SIZE ∧
      x / PAGE_SIZE < (addr + len + (PAGE_SIZE - 1)) / PAGE_SIZE) := by
    simp only [Outside, PAGE_SIZE] at *
    omega
  simp only [view, unplace, if_neg hp]

/-- Pages that were free before they were mapped are free when they are given back. -/
lemma keeps_unplace_place (content : ByteMem) (haddr : addr % PAGE_SIZE = 0)
    (hlen : len % PAGE_SIZE = 0) (hfree : h.free addr len) :
    Keeps P h ((h.place addr len prot content).unplace addr len) := by
  intro x _
  have hfree' : ∀ p, addr / PAGE_SIZE ≤ p → p < (addr + len) / PAGE_SIZE → h.pages p = none := by
    intro p h1 h2
    rw [free, List.all_eq_true] at hfree
    simp only [List.mem_range'_1, Option.isNone_iff_eq_none] at hfree
    exact hfree p ⟨h1, by omega⟩
  by_cases hx : addr / PAGE_SIZE ≤ x / PAGE_SIZE ∧ x / PAGE_SIZE < (addr + len) / PAGE_SIZE
  · have hp : addr / PAGE_SIZE ≤ x / PAGE_SIZE ∧
        x / PAGE_SIZE < (addr + len + (PAGE_SIZE - 1)) / PAGE_SIZE := by
      simp only [PAGE_SIZE] at *
      omega
    simp only [view, unplace, if_pos hp, hfree' _ hx.1 hx.2, Option.map_none]
  · have hp : ¬ (addr / PAGE_SIZE ≤ x / PAGE_SIZE ∧
        x / PAGE_SIZE < (addr + len + (PAGE_SIZE - 1)) / PAGE_SIZE) := by
      simp only [PAGE_SIZE] at *
      omega
    have hm : ¬ (addr ≤ x ∧ x < addr + len) := by
      simp only [PAGE_SIZE] at *
      omega
    simp only [view, unplace, place, if_neg hp, if_neg hx, if_neg hm]

/-- A request of `munmap` that is inside a part of memory made of pages. -/
lemma keeps_munmap {top : ℕ} (htop : top % PAGE_SIZE = 0)
    (hle : addr % PAGE_SIZE = 0 → addr + len ≤ top) :
    Keeps (top ≤ ·) h (h.munmap addr len).2 := by
  rw [munmap]
  split
  · exact keeps_fail _ h _
  · rename_i hok
    cases h.answers h.calls with
    | refused errno => exact keeps_fail _ h errno
    | placed a =>
      refine (keeps_unplace h addr len).mono fun x hx => Or.inr ?_
      have hle := hle (not_not.mp fun hne => hok (Or.inl hne))
      simp only [PAGE_SIZE] at *
      omega

/-- A mapping at a fixed address keeps everything, if it fails, and the rest, if it does not. -/
lemma keeps_mmap_fixed (h : Host) (addr : ℕ) (prot flags fd : BitVec 32) (offs : ℕ)
    (hlen : len % PAGE_SIZE = 0) :
    Keeps (fun x => (h.mmap (some addr) len prot flags fd offs).1 = none ∨ Outside addr len x) h
      (h.mmap (some addr) len prot flags fd offs).2 := by
  rcases mmap_fixed_cases h addr len prot flags fd offs with ⟨-, e, heq⟩ | ⟨c, -, haddr, heq⟩
  · rw [heq]
    exact keeps_fail _ h e
  · rw [heq]
    refine (keeps_place c haddr hlen).mono fun x hx => ?_
    exact hx.resolve_left (Option.some_ne_none addr)

/-- Where the host puts a mapping was free. -/
lemma mmap_anywhere_eq_some (hm : h.mmap none len prot flags fd offs = (some addr, h')) :
    addr % PAGE_SIZE = 0 ∧ addr + len ≤ 2 ^ 64 ∧ h.free addr len ∧
      ∃ content, h' = h.place addr len prot content := by
  rw [mmap] at hm
  split at hm
  · cases hm
  · cases hc : h.content flags fd offs with
    | none => rw [hc] at hm; cases hm
    | some content =>
      rw [hc] at hm
      cases ha : h.answers h.calls with
      | refused errno => rw [ha] at hm; cases hm
      | placed a =>
        rw [ha] at hm
        simp only at hm
        split at hm
        · rename_i hok
          cases hm
          exact ⟨hok.1, hok.2.1, hok.2.2, content, rfl⟩
        · cases hm

lemma keeps_clear (h : Host) (addr n : ℕ) : Keeps (Outside addr n) h (h.clear addr n) := by
  intro x hx
  rw [Outside] at hx
  simp only [view, clear]
  rw [if_neg (by omega)]

lemma memset_eq_some {n : ℕ} (hm : h.memset addr n = some h') :
    n = 0 ∧ h' = h ∨ h' = h.clear addr n := by
  rw [memset] at hm
  split at hm
  · rename_i hn
    exact Or.inl ⟨hn, (Option.some.inj hm).symm⟩
  · split at hm
    · exact Or.inr (Option.some.inj hm).symm
    · cases hm

lemma keeps_memset {n : ℕ} (hm : h.memset addr n = some h') : Keeps (Outside addr n) h h' := by
  rcases memset_eq_some hm with ⟨-, rfl⟩ | rfl
  · exact .refl _ _
  · exact keeps_clear h addr n

end Host

namespace Mmu

open Host (Keeps Outside)

variable {m m' : Mmu} {vaddr len plen paddr prot flags fd : BitVec 32} {offs : ℕ}
  {r : Option ℕ} {w : Bool} {P : ℕ → Prop}

/-- What the search has done: nothing that is left, or one free range in the guest's memory. -/
def Found (len : ℕ) (h : Host) : Option ℕ → Host → Prop
  | none, h' => ∀ P, Keeps P h h'
  | some hptr, h' => hptr % PAGE_SIZE = 0 ∧ hptr + len ≤ ASPACE_SIZE ∧
      Keeps (Outside hptr len) h h'

lemma search_found {n : ℕ} (hlen : len.toNat % PAGE_SIZE = 0)
    (hs : search len plen n m paddr w = some (r, m')) :
    Found len.toNat m.host r m'.host := by
  induction n generalizing m paddr w with
  | zero => cases hs
  | succ n ih =>
    rw [search] at hs
    rcases hn : m.nextRange plen paddr w with _ | ⟨paddr', w'⟩
    · rw [hn] at hs
      cases hs
      exact fun P => .refl P m'.host
    rw [hn] at hs
    rcases hm : m.host.mmap none len.toNat 0 (MAP_ANON ||| MAP_PRIVATE ||| MAP_NORESERVE) (-1) 0
      with ⟨_ | hptr, host⟩
    · rw [hm] at hs
      cases hs
    rw [hm] at hs
    obtain ⟨haddr, htop, hfree, content, rfl⟩ := Host.mmap_anywhere_eq_some hm
    simp only at hs
    split at hs
    · -- the range that the host has put in the guest's memory
      rename_i hcheck
      cases hs
      refine ⟨haddr, ?_, Host.keeps_place content haddr hlen⟩
      rw [check_h2g, decide_eq_true_eq] at hcheck
      simp only [ASPACE_SIZE, PAGE_SIZE] at *
      omega
    · -- another range, which is given back
      rcases hu : (m.host.place hptr len.toNat 0 content).munmap hptr len.toNat with ⟨_ | _, host⟩
      · rw [hu] at hs
        cases hs
      rw [hu] at hs
      have hback : ∀ P, Keeps P m.host host := by
        intro P
        rw [Host.munmap] at hu
        split at hu
        · cases hu
        · cases ha : (m.host.place hptr len.toNat 0 content).answers
            (m.host.place hptr len.toNat 0 content).calls with
          | refused errno => rw [ha] at hu; cases hu
          | placed a =>
            rw [ha] at hu
            cases hu
            exact Host.keeps_unplace_place content haddr hlen hfree
      have hrest := ih hs
      cases r with
      | none => exact fun P => (hback P).trans (hrest P)
      | some hptr' => exact ⟨hrest.1, hrest.2.1, (hback _).trans hrest.2.2⟩

/-- A mapping that the host is asked for at a fixed place. -/
lemma mmapFixed_keeps (hlen : len.toNat % PAGE_SIZE = 0)
    (hm : m.mmapFixed vaddr len prot flags fd offs = (r, m')) :
    Keeps (fun x => r = none ∨ Outside vaddr.toNat len.toNat x) m.host m'.host := by
  have hk := Host.keeps_mmap_fixed m.host vaddr.toNat prot flags fd offs hlen
  have hhost := mmapFixed_host m vaddr len prot flags fd offs
  rw [hm] at hhost
  rw [hhost]
  refine hk.mono fun x hx => ?_
  rw [mmapFixed] at hm
  rcases heq : m.host.mmap (some vaddr.toNat) len.toNat prot flags fd offs with ⟨_ | hptr, host⟩
  · exact Or.inl rfl
  · rw [heq] at hm
    cases hm
    exact Or.inr (hx.resolve_left (Option.some_ne_none hptr))

/-- A mapping at a fixed place is at the start of a page. -/
lemma mmapFixed_some {hptr : ℕ} (hm : m.mmapFixed vaddr len prot flags fd offs = (some hptr, m')) :
    hptr = vaddr.toNat ∧ vaddr.toNat % PAGE_SIZE = 0 := by
  rw [mmapFixed] at hm
  rcases Host.mmap_fixed_cases m.host vaddr.toNat len.toNat prot flags fd offs
    with ⟨hnone, e, heq⟩ | ⟨c, -, haddr, heq⟩
  · rw [show m.host.mmap (some vaddr.toNat) len.toNat prot flags fd offs = (none, m.host.fail e)
      from Prod.ext hnone heq] at hm
    cases hm
  · rw [heq] at hm
    cases hm
    exact ⟨rfl, haddr⟩

/-- A mapping that the simulator has looked for a place for. -/
lemma mmapAnywhere_keeps (hlen : len.toNat % PAGE_SIZE = 0)
    (hm : m.mmapAnywhere len prot flags fd offs = some (r, m')) :
    Keeps (fun x => ASPACE_SIZE ≤ x) m.host m'.host := by
  rw [mmapAnywhere] at hm
  rcases hs : search len (len >>> PAGE_BITS) searchRounds m m.mmap_hint_page false
    with _ | ⟨_ | hptr, m1⟩
  · rw [hs] at hm
    cases hm
  · rw [hs] at hm
    cases hm
    exact search_found hlen hs _
  · rw [hs] at hm
    obtain ⟨-, htop, hk⟩ := search_found hlen hs
    have hk' := Host.keeps_mmap_fixed m1.host hptr prot (flags ||| MAP_FIXED) fd offs hlen
    simp only at hm
    rcases heq : m1.host.mmap (some hptr) len.toNat prot (flags ||| MAP_FIXED) fd offs
      with ⟨_ | res, host⟩
    · rw [heq] at hm
      cases hm
    · rw [heq] at hm hk'
      cases hm
      refine (hk.mono fun x hx => ?_).trans (hk'.mono fun x hx => ?_)
      · exact Or.inr (htop.trans hx)
      · exact Or.inr (Or.inr (htop.trans hx))

/-- All mappings are in the guest's memory. -/
lemma mmap_keeps (hm : m.mmap vaddr len prot flags fd offs = some (r, m')) :
    Keeps (fun x => ASPACE_SIZE ≤ x) m.host m'.host := by
  rw [mmap] at hm
  split at hm
  · rename_i hin
    have hin := inAspace_iff.mp hin
    have hdvd := roundupPage_dvd len
    simp only at hm
    split at hm
    · rw [Option.some.injEq] at hm
      refine (mmapFixed_keeps hdvd hm).mono fun x hx => ?_
      cases r with
      | none => exact Or.inl rfl
      | some hptr =>
        have haddr := (mmapFixed_some hm).2
        have hlen := toNat_roundupPage len
        refine Or.inr (Or.inr ?_)
        simp only [InAspace, ASPACE_SIZE, PAGE_SIZE] at *
        split at hlen <;> omega
    · exact mmapAnywhere_keeps hdvd hm
  · cases hm

end Mmu

end Rv32jit.Env
