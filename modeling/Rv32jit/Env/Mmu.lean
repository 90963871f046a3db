/-
# The guest's memory

`mmu.cpp`: mappings in the guest's four gigabytes, at a fixed place or at one that the search over
the page bitmap finds and the host agrees to.
-/
import Rv32jit.Env.Host

namespace Rv32jit.Env

/-- `mmu::ASPACE_SIZE`. -/
def ASPACE_SIZE : ℕ := 2 ^ 32

/-- `mmu::PAGE_BITS`. -/
def PAGE_BITS : ℕ := 12

/-- `mmu::MIN_MMAP_ADDR`. -/
def MIN_MMAP_ADDR : ℕ := 16 * PAGE_SIZE

/-- `roundup` of a 32-bit number to `PAGE_SIZE`, which is a `size_t`. -/
def roundupPage (x : BitVec 32) : BitVec 32 :=
  .ofNat 32 ((x.toNat + (PAGE_SIZE - 1)) / PAGE_SIZE * PAGE_SIZE)

/-- `roundup` of a 32-bit number to `(u32) PAGE_SIZE`. -/
def roundupPage32 (x : BitVec 32) : BitVec 32 :=
  .ofNat 32 ((x + .ofNat 32 (PAGE_SIZE - 1)).toNat / PAGE_SIZE * PAGE_SIZE)

/-- `rounddown` of a 32-bit number to `PAGE_SIZE`. -/
def rounddownPage (x : BitVec 32) : BitVec 32 := .ofNat 32 (x.toNat - x.toNat % PAGE_SIZE)

/-- `mmu`: the base of the guest memory and the bitmap of mapped pages, over a host. -/
structure Mmu where
  host : Host
  /-- The number of the page that `base` points to, as far as it matters for guest addresses. -/
  base : BitVec 20
  used_pages : ℕ → Bool
  mmap_hint_page : BitVec 32

namespace Mmu

/-- `MarkUsedPages`. -/
def markUsedPages (m : Mmu) (pvaddr plen : BitVec 32) : Mmu :=
  { m with used_pages := fun p =>
      decide (pvaddr.toNat ≤ p ∧ p < plen.toNat) || m.used_pages p }

/-- The loop of `LookupFreeRange` over the `n` pages that are left from `p` on. -/
def lookupLoop (used_pages : ℕ → Bool) (plen : BitVec 32) : ℕ → ℕ → BitVec 32 → BitVec 32
  | 0, _, _ => 0
  | n + 1, p, count =>
      let count := count - 1
      if count = 0 then .ofNat 32 p + 1 - plen
      else lookupLoop used_pages plen n (p + 1) (if used_pages p then plen else count)

/-- `LookupFreeRange`. -/
def lookupFreeRange (m : Mmu) (pvaddr plen : BitVec 32) : BitVec 32 :=
  lookupLoop m.used_pages plen (ASPACE_SIZE / PAGE_SIZE - pvaddr.toNat) pvaddr.toNat plen

/-- The first page of the search after it has wrapped around. -/
def firstPage : BitVec 32 := .ofNat 32 (MIN_MMAP_ADDR / PAGE_SIZE)

/-- The inner loop of the search: the next free range, and whether the search has wrapped around;
nothing when it has come round to the hint. -/
def nextRange (m : Mmu) (plen paddr : BitVec 32) (paddr_wrapped : Bool) :
    Option (BitVec 32 × Bool) :=
  let p := m.lookupFreeRange paddr plen
  if paddr_wrapped ∧ (p = 0 ∨ m.mmap_hint_page < p) then none
  else if p ≠ 0 then some (p, paddr_wrapped)
  else
    let p := m.lookupFreeRange firstPage plen
    if p = 0 ∨ m.mmap_hint_page < p then none else some (p, true)

/-- `check_h2g`. -/
def check_h2g (a : ℕ) : Bool := a % 2 ^ 64 < ASPACE_SIZE

/-- The outer loop of the search: a place for `len` bytes that the host has agreed to; the inner
`none` stands for `MAP_FAILED`, the outer one for a panic. -/
def search (len plen : BitVec 32) : ℕ → Mmu → BitVec 32 → Bool → Option (Option ℕ × Mmu)
  | 0, _, _, _ => none
  | n + 1, m, paddr, paddr_wrapped =>
      match m.nextRange plen paddr paddr_wrapped with
      | none => some (none, m)
      | some (paddr, paddr_wrapped) =>
          match m.host.mmap none len.toNat 0 (MAP_ANON ||| MAP_PRIVATE ||| MAP_NORESERVE) (-1) 0
            with
          | (none, _) => none
          | (some hptr, host) =>
              if check_h2g (hptr + len.toNat - 1) then some (some hptr, { m with host := host })
              else
                match host.munmap hptr len.toNat with
                | (false, _) => none
                | (true, host) =>
                    search len plen n { m with host := host } (paddr + plen) paddr_wrapped

/-- The number of rounds after which the search has come round. -/
def searchRounds : ℕ := 2 * (ASPACE_SIZE / PAGE_SIZE) + 2

/-- The mapping at a fixed place. -/
def mmapFixed (m : Mmu) (vaddr len prot flags fd : BitVec 32) (offs : ℕ) :
    Option ℕ × Mmu :=
  match m.host.mmap (some vaddr.toNat) len.toNat prot flags fd offs with
  | (none, host) => (none, { m with host := host })
  | (some hptr, host) =>
      (some hptr, { m with host := host }.markUsedPages (vaddr >>> PAGE_BITS) (len >>> PAGE_BITS))

/-- The mapping at a place that is searched for. -/
def mmapAnywhere (m : Mmu) (len prot flags fd : BitVec 32) (offs : ℕ) :
    Option (Option ℕ × Mmu) :=
  match search len (len >>> PAGE_BITS) searchRounds m m.mmap_hint_page false with
  | none => none
  | some (none, m) => some (none, m)
  | some (some hptr, m) =>
      match m.host.mmap (some hptr) len.toNat prot (flags ||| MAP_FIXED) fd offs with
      | (none, _) => none
      | (some res, host) =>
          let paddr := (BitVec.ofNat 32 hptr) >>> PAGE_BITS
          let m := { m with host := host }.markUsedPages paddr (len >>> PAGE_BITS)
          some (some res, { m with mmap_hint_page := paddr + (len >>> PAGE_BITS) })

/-- `h2g`, also of `MAP_FAILED`. -/
def h2g (m : Mmu) : Option ℕ → BitVec 32
  | some hptr => .ofNat 32 hptr
  | none => -1 - (m.base.setWidth 32 <<< PAGE_BITS)

/-- `mmu::Init`: the host has given the four gigabytes, and all but the first pages are back. -/
def init (files : BitVec 32 → Option HostFile) (answers : ℕ → Answer) (base : BitVec 20) : Mmu :=
  markUsedPages
    { host :=
        { pages := fun p => if p < MIN_MMAP_ADDR / PAGE_SIZE then some ⟨0, 0⟩ else none
          mem := fun _ => 0
          files := files
          answers := answers
          calls := 1
          errno := 0
          past := by
            intro p pg hpg
            split at hpg
            · cases hpg
              exact Nat.one_pos
            · cases hpg }
      base := base
      used_pages := fun _ => false
      mmap_hint_page := firstPage }
    0 (.ofNat 32 MIN_MMAP_ADDR)

/-- `mmu::mmap`: an address, or `none` for `MAP_FAILED`; the outer `none` stands for a failed
assertion and for a panic. -/
def mmap (m : Mmu) (vaddr len prot flags fd : BitVec 32) (offs : ℕ) :
    Option (Option ℕ × Mmu) :=
  if (vaddr.toNat + len.toNat + (2 ^ 64 - 1)) % 2 ^ 64 < ASPACE_SIZE then
    let len := roundupPage len
    if flags &&& MAP_FIXED ≠ 0 then some (m.mmapFixed vaddr len prot flags fd offs)
    else m.mmapAnywhere len prot flags fd offs
  else none

end Mmu

/-! ### Rounding -/

variable {x : BitVec 32}

lemma toNat_zero32 : (0 : BitVec 32).toNat = 0 := rfl

lemma ne_zero_iff : x ≠ 0 ↔ x.toNat ≠ 0 := by
  rw [Ne, ← BitVec.toNat_inj]
  rfl

/-- Above the start of the last page, `roundup` wraps around. -/
lemma toNat_roundupPage (x : BitVec 32) :
    (roundupPage x).toNat =
      if x.toNat ≤ 2 ^ 32 - 4096 then (x.toNat + 4095) / 4096 * 4096 else 0 := by
  have hlt := x.isLt
  rw [roundupPage, BitVec.toNat_ofNat]
  simp only [PAGE_SIZE]
  split
  · exact Nat.mod_eq_of_lt (by omega)
  · rw [show (x.toNat + (4096 - 1)) / 4096 = 2 ^ 20 by omega]
    rfl

/-- It does not matter in how many bits the sum is computed. -/
lemma roundupPage32_eq (x : BitVec 32) : roundupPage32 x = roundupPage x := by
  have hlt := x.isLt
  refine BitVec.eq_of_toNat_eq ?_
  rw [toNat_roundupPage, roundupPage32, BitVec.toNat_ofNat]
  have hsum : (x + .ofNat 32 (PAGE_SIZE - 1)).toNat = (x.toNat + 4095) % 2 ^ 32 := by
    rw [BitVec.toNat_add]
    rfl
  rw [hsum]
  simp only [PAGE_SIZE]
  split
  · rw [Nat.mod_eq_of_lt (show x.toNat + 4095 < 2 ^ 32 by omega)]
    exact Nat.mod_eq_of_lt (by omega)
  · rw [show (x.toNat + 4095) % 2 ^ 32 / 4096 = 0 by omega]

lemma roundupPage_dvd (x : BitVec 32) : (roundupPage x).toNat % 4096 = 0 := by
  rw [toNat_roundupPage]
  split <;> omega

lemma roundupPage_of_dvd (h : x.toNat % 4096 = 0) : roundupPage x = x := by
  have hlt := x.isLt
  refine BitVec.eq_of_toNat_eq ?_
  rw [toNat_roundupPage, if_pos (by omega)]
  omega

lemma toNat_rounddownPage (x : BitVec 32) :
    (rounddownPage x).toNat = x.toNat / 4096 * 4096 := by
  have hlt := x.isLt
  rw [rounddownPage, BitVec.toNat_ofNat]
  simp only [PAGE_SIZE]
  rw [Nat.mod_eq_of_lt (by omega)]
  omega

/-- The offset of an address in its page. -/
lemma toNat_sub_rounddownPage (x : BitVec 32) :
    (x - rounddownPage x).toNat = x.toNat % 4096 := by
  have hd := toNat_rounddownPage x
  rw [BitVec.toNat_sub_of_le (by rw [BitVec.le_def, hd]; omega), hd]
  omega

namespace Mmu

variable {m : Mmu} {vaddr len prot flags fd : BitVec 32} {offs : ℕ}

/-- What the assertion of `mmap` lets through. -/
def InAspace (vaddr len : BitVec 32) : Prop :=
  1 ≤ vaddr.toNat + len.toNat ∧ vaddr.toNat + len.toNat ≤ 2 ^ 32

lemma inAspace_iff :
    (vaddr.toNat + len.toNat + (2 ^ 64 - 1)) % 2 ^ 64 < ASPACE_SIZE ↔ InAspace vaddr len := by
  have hv := vaddr.isLt
  have hl := len.isLt
  simp only [ASPACE_SIZE, InAspace]
  omega

/-- A mapping of whole pages at a fixed place. -/
lemma mmap_fixed (hflags : flags &&& MAP_FIXED ≠ 0) (hlen : len.toNat % 4096 = 0) :
    m.mmap vaddr len prot flags fd offs =
      if (vaddr.toNat + len.toNat + (2 ^ 64 - 1)) % 2 ^ 64 < ASPACE_SIZE then
        some (m.mmapFixed vaddr len prot flags fd offs)
      else none := by
  simp only [mmap, roundupPage_of_dvd hlen, if_pos hflags]

variable (m vaddr len prot flags fd offs) in
lemma mmapFixed_host :
    (m.mmapFixed vaddr len prot flags fd offs).2.host =
      (m.host.mmap (some vaddr.toNat) len.toNat prot flags fd offs).2 := by
  rw [mmapFixed]
  rcases m.host.mmap (some vaddr.toNat) len.toNat prot flags fd offs with ⟨_ | hptr, host⟩ <;> rfl

variable (m vaddr len prot flags fd offs) in
lemma mmapFixed_fst :
    (m.mmapFixed vaddr len prot flags fd offs).1 =
      (m.host.mmap (some vaddr.toNat) len.toNat prot flags fd offs).1 := by
  rw [mmapFixed]
  rcases m.host.mmap (some vaddr.toNat) len.toNat prot flags fd offs with ⟨_ | hptr, host⟩ <;> rfl

/-- A mapping of whole pages at a fixed place that does not abort. -/
lemma mmap_fixed_eq_some {r : Option ℕ} {m' : Mmu} (hflags : flags &&& MAP_FIXED ≠ 0)
    (hlen : len.toNat % 4096 = 0) (h : m.mmap vaddr len prot flags fd offs = some (r, m')) :
    InAspace vaddr len ∧
      m'.host = (m.host.mmap (some vaddr.toNat) len.toNat prot flags fd offs).2 := by
  rw [mmap_fixed hflags hlen] at h
  split at h
  · rename_i hin
    refine ⟨inAspace_iff.mp hin, ?_⟩
    rw [← mmapFixed_host, Option.some.inj h]
  · cases h

variable (m prot fd offs) in
lemma mmap_fixed_of_inAspace (hflags : flags &&& MAP_FIXED ≠ 0) (hlen : len.toNat % 4096 = 0)
    (hin : InAspace vaddr len) :
    ∃ r m', m.mmap vaddr len prot flags fd offs = some (r, m') ∧
      m'.host = (m.host.mmap (some vaddr.toNat) len.toNat prot flags fd offs).2 := by
  rw [mmap_fixed hflags hlen, if_pos (inAspace_iff.mpr hin)]
  exact ⟨_, _, rfl, mmapFixed_host m vaddr len prot flags fd offs⟩

end Mmu

end Rv32jit.Env
