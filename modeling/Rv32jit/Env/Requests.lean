/-
# The requests of a mapping

What the host answers to the requests that `mmu::mmap` makes one after the other: the loops of the
search are deterministic, so that an answer that ends them decides what the mapping comes to.
-/
import Rv32jit.Env.Search

namespace Rv32jit.Env

namespace Mmu

variable {m m' : Mmu} {vaddr len prot flags fd paddr p : BitVec 32} {offs hptr i j n : ℕ}
  {h h1 h2 : Host} {w : Bool}

variable (m len) in
/-- The search asks the host for a range in the state `h`. -/
def Asks (h : Host) : Prop :=
  ∃ i j paddr w, m.Loops len i j h paddr w ∧ m.lookupFreeRange paddr (len >>> PAGE_BITS) ≠ 0 ∧
    ¬ (w ∧ m.mmap_hint_page < m.lookupFreeRange paddr (len >>> PAGE_BITS))

/-- The answer to a request for a mapping. -/
def answer : Option ℕ × Host → Except (BitVec 32) ℕ
  | (none, h) => .error h.errno
  | (some addr, _) => .ok addr

/-- What the host says that ends the search for `len` bytes, or about the mapping at the place that
has been found: a refusal, or an address. -/
inductive Says (m : Mmu) (len prot flags fd : BitVec 32) (offs : ℕ) :
    Except (BitVec 32) ℕ → Prop
  | refused {h h1 : Host} :
      m.Asks len h → probe h len = (none, h1) → Says m len prot flags fd offs (.error h1.errno)
  | kept {h h1 h2 : Host} {hptr : ℕ} :
      m.Asks len h → probe h len = (some hptr, h1) → ¬ Accepted hptr len →
      h1.munmap hptr len.toNat = (false, h2) → Says m len prot flags fd offs (.error h2.errno)
  | mapped {h h1 : Host} {hptr : ℕ} :
      m.Asks len h → probe h len = (some hptr, h1) → Accepted hptr len →
      Says m len prot flags fd offs
        (answer (h1.mmap (some hptr) len.toNat prot (flags ||| MAP_FIXED) fd offs))

/-! ### The search is deterministic -/

lemma nextRange_some {m : Mmu} {plen : BitVec 32} (hne : m.lookupFreeRange paddr plen ≠ 0)
    (hgo : ¬ (w ∧ m.mmap_hint_page < m.lookupFreeRange paddr plen)) :
    m.nextRange plen paddr w = some (m.lookupFreeRange paddr plen, w) := by
  rw [nextRange, if_neg, if_pos hne]
  rintro ⟨hw, hzero | hlt⟩
  · exact hne hzero
  · exact hgo ⟨hw, hlt⟩

/-- After a wrap-around the loop goes on as if it had started at the first page. -/
lemma nextRange_wrap {m : Mmu} {plen : BitVec 32} (hzero : m.lookupFreeRange paddr plen = 0) :
    m.nextRange plen paddr false = m.nextRange plen firstPage true := by
  rw [nextRange, nextRange]
  simp only [hzero, Bool.false_eq_true, false_and, if_false, ne_eq, not_true_eq_false, true_and]
  split
  · rfl
  · rename_i hstop
    rw [if_pos fun hz => hstop (Or.inl hz)]

/-- One round of the search that finds a range for which it asks. -/
lemma search_step (hne : m.lookupFreeRange paddr (len >>> PAGE_BITS) ≠ 0)
    (hgo : ¬ (w ∧ m.mmap_hint_page < m.lookupFreeRange paddr (len >>> PAGE_BITS))) :
    search len (len >>> PAGE_BITS) (n + 1) { m with host := h } paddr w =
      match probe h len with
      | (none, _) => none
      | (some hptr, host) =>
        if check_h2g (hptr + len.toNat - 1) then some (some hptr, { m with host := host })
        else
          match host.munmap hptr len.toNat with
          | (false, _) => none
          | (true, host) =>
            search len (len >>> PAGE_BITS) n { m with host := host }
              (m.lookupFreeRange paddr (len >>> PAGE_BITS) + len >>> PAGE_BITS) w := by
  have hnext : nextRange { m with host := h } (len >>> PAGE_BITS) paddr w =
      some (m.lookupFreeRange paddr (len >>> PAGE_BITS), w) := nextRange_some hne hgo
  rw [search, hnext]
  rfl

/-- From a state that is reached the search goes on in the rounds that are left. -/
lemma Loops.search_eq (hl : m.Loops len i j h paddr w) (n : ℕ) :
    Mmu.search len (len >>> PAGE_BITS) (i + n) m m.mmap_hint_page false =
      Mmu.search len (len >>> PAGE_BITS) n { m with host := h } paddr w := by
  induction hl generalizing n with
  | start => rw [Nat.zero_add]
  | @wrap i j h paddr hl hzero ih =>
    rw [ih n]
    cases n with
    | zero => rfl
    | succ n =>
      have hnext : nextRange { m with host := h } (len >>> PAGE_BITS) paddr false =
          nextRange { m with host := h } (len >>> PAGE_BITS) firstPage true :=
        nextRange_wrap hzero
      rw [Mmu.search, Mmu.search, hnext]
  | @again i j hptr h h1 h2 paddr p w hl hp hne hw hprobe hacc hback ih =>
    subst hp
    rw [Nat.add_right_comm, Nat.add_assoc, ih (n + 1), search_step hne hw, hprobe]
    simp only
    rw [if_neg (show ¬ check_h2g (hptr + len.toNat - 1) = true from hacc), hback]

/-- The round in which the search asks in the state `h`. -/
lemma Asks.search_eq (ha : m.Asks len h) : ∃ n paddr w,
    search len (len >>> PAGE_BITS) searchRounds m m.mmap_hint_page false =
      match probe h len with
      | (none, _) => none
      | (some hptr, host) =>
        if check_h2g (hptr + len.toNat - 1) then some (some hptr, { m with host := host })
        else
          match host.munmap hptr len.toNat with
          | (false, _) => none
          | (true, host) => search len (len >>> PAGE_BITS) n { m with host := host } paddr w := by
  obtain ⟨i, j, paddr, w, hl, hne, hgo⟩ := ha
  have hi := hl.bounded.1
  have hrounds : searchRounds = i + (searchRounds - i - 1 + 1) := by
    have hr : searchRounds = 2 * PAGES + 2 := rfl
    omega
  rw [hrounds, hl.search_eq, search_step hne hgo]
  exact ⟨_, _, _, rfl⟩

/-- What the answers are that the search ends with. -/
inductive EndsWith (m : Mmu) (len : BitVec 32) : Option (Option ℕ × Mmu) → Prop
  | found {h h1 : Host} {hptr : ℕ} :
      m.Asks len h → probe h len = (some hptr, h1) → Accepted hptr len →
      EndsWith m len (some (some hptr, { m with host := h1 }))
  | nothing {h : Host} : EndsWith m len (some (none, { m with host := h }))
  | refused {h h1 : Host} : m.Asks len h → probe h len = (none, h1) → EndsWith m len none
  | kept {h h1 h2 : Host} {hptr : ℕ} :
      m.Asks len h → probe h len = (some hptr, h1) → ¬ Accepted hptr len →
      h1.munmap hptr len.toNat = (false, h2) → EndsWith m len none

lemma Loops.endsWith (hl : m.Loops len i j h paddr w) (hn : searchRounds ≤ i + n) :
    m.EndsWith len (Mmu.search len (len >>> PAGE_BITS) n { m with host := h } paddr w) := by
  induction n generalizing i j h paddr w with
  | zero =>
    have hi := hl.bounded.1
    have hrounds : searchRounds = 2 * PAGES + 2 := rfl
    omega
  | succ n ih =>
    rw [Mmu.search]
    rcases hnext : nextRange { m with host := h } (len >>> PAGE_BITS) paddr w with _ | ⟨p, w'⟩
    · exact .nothing
    obtain ⟨j', paddr', hl', rfl, hne, hgo⟩ := hl.nextRange_some hnext
    have hask : m.Asks len h := ⟨i, j', paddr', w', hl', hne, hgo⟩
    simp only
    rcases hm : h.mmap none len.toNat 0 (MAP_ANON ||| MAP_PRIVATE ||| MAP_NORESERVE) (-1) 0
      with ⟨_ | hptr, h1⟩
    · exact .refused hask hm
    · simp only
      split
      · rename_i hacc
        exact .found hask hm hacc
      · rename_i hacc
        rcases hu : h1.munmap hptr len.toNat with ⟨_ | _, h2⟩
        · exact .kept hask hm hacc hu
        · exact ih (hl'.again rfl hne hgo hm hacc hu) (by omega)

/-! ### What the mapping comes to -/

/-- A refusal ends in a panic. -/
lemma mmapAnywhere_refused {e : BitVec 32} (hs : m.Says len prot flags fd offs (.error e)) :
    m.mmapAnywhere len prot flags fd offs = none := by
  generalize ho : Except.error e = o at hs
  cases hs with
  | refused hask hprobe =>
    obtain ⟨n, paddr, w, heq⟩ := hask.search_eq
    rw [mmapAnywhere, heq, hprobe]
  | @kept h h1 h2 hptr hask hprobe hacc hback =>
    obtain ⟨n, paddr, w, heq⟩ := hask.search_eq
    rw [mmapAnywhere, heq, hprobe]
    simp only
    rw [if_neg (show ¬ check_h2g (hptr + len.toNat - 1) = true from hacc), hback]
  | @mapped h h1 hptr hask hprobe hacc =>
    obtain ⟨n, paddr, w, heq⟩ := hask.search_eq
    rw [mmapAnywhere, heq, hprobe]
    simp only
    rw [if_pos (show check_h2g (hptr + len.toNat - 1) = true from hacc)]
    simp only
    rcases hm : h1.mmap (some hptr) len.toNat prot (flags ||| MAP_FIXED) fd offs with ⟨_ | a, h2⟩
    · rfl
    · rw [hm] at ho
      cases ho

/-- The address is returned. -/
lemma mmapAnywhere_mapped {a : ℕ} (hs : m.Says len prot flags fd offs (.ok a)) :
    ∃ m', m.mmapAnywhere len prot flags fd offs = some (some a, m') := by
  generalize ho : Except.ok a = o at hs
  cases hs with
  | refused hask hprobe => cases ho
  | kept hask hprobe hacc hback => cases ho
  | @mapped h h1 hptr hask hprobe hacc =>
    obtain ⟨n, paddr, w, heq⟩ := hask.search_eq
    rw [mmapAnywhere, heq, hprobe]
    simp only
    rw [if_pos (show check_h2g (hptr + len.toNat - 1) = true from hacc)]
    simp only
    rcases hm : h1.mmap (some hptr) len.toNat prot (flags ||| MAP_FIXED) fd offs with ⟨_ | a', h2⟩
    · rw [hm] at ho
      cases ho
    · rw [hm] at ho
      cases ho
      exact ⟨_, rfl⟩

variable (m len prot flags fd offs) in
/-- There is no panic without a refusal, and no address without the host's agreement. -/
lemma says_of_mmapAnywhere :
    match m.mmapAnywhere len prot flags fd offs with
    | none => ∃ e, m.Says len prot flags fd offs (.error e)
    | some (none, _) => True
    | some (some a, _) => m.Says len prot flags fd offs (.ok a) := by
  have hstart : m.Loops len 0 0 m.host m.mmap_hint_page false := .start
  have hends : m.EndsWith len
      (search len (len >>> PAGE_BITS) searchRounds m m.mmap_hint_page false) :=
    hstart.endsWith (Nat.le_add_left _ _)
  rw [mmapAnywhere]
  generalize search len (len >>> PAGE_BITS) searchRounds m m.mmap_hint_page false = o at hends
  cases hends with
  | nothing => trivial
  | refused hask hprobe => exact ⟨_, .refused hask hprobe⟩
  | kept hask hprobe hacc hback => exact ⟨_, .kept hask hprobe hacc hback⟩
  | @found h h1 hptr hask hprobe hacc =>
    have hanswer : m.Says len prot flags fd offs
        (answer (h1.mmap (some hptr) len.toNat prot (flags ||| MAP_FIXED) fd offs)) :=
      .mapped hask hprobe hacc
    simp only
    rcases hm : h1.mmap (some hptr) len.toNat prot (flags ||| MAP_FIXED) fd offs with ⟨_ | a, h2⟩
    · rw [hm] at hanswer
      exact ⟨_, hanswer⟩
    · rw [hm] at hanswer
      exact hanswer

end Mmu

end Rv32jit.Env
