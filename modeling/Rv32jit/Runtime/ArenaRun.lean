/-
# Runs of an arena

Requests to one arena, in any order and number, from `Init` on.  The bound check of `Allocate`
adds a size of the caller's to the start of the block, and the sum is a `size_t`: a sum of
`2 ^ 64` or more comes back small.  Up to that the blocks are disjoint and lie in the pool.
-/
import Rv32jit.Runtime.Arena
import Mathlib.Order.CompletePartialOrder
import Mathlib.Order.Interval.Set.Disjoint

namespace Rv32jit.Runtime

namespace MemArena

/-- What becomes of a request. -/
inductive Outcome
  | returned (ptr : ℕ)
  | null
  /-- A failed assertion has ended the process. -/
  | aborted
deriving DecidableEq, Repr

/-- `Allocate`.  Before the null pointer stands `assert(0)`, which a build with `NDEBUG` leaves
out. -/
def Allocate (asserts : Bool) (a : MemArena) (alloc_sz align : ℕ) : Outcome × MemArena :=
  match a.allocate alloc_sz align with
  | some (ptr, a') => (.returned ptr, a')
  | none => (if asserts then .aborted else .null, a)

/-- A request for a size and an alignment. -/
inductive Request
  | allocate (alloc_sz align : ℕ)
  | reset
deriving DecidableEq, Repr

/-- The size is a `size_t`, and the alignment divides the page size. -/
def Request.Valid : Request → Prop
  | .allocate alloc_sz align => alloc_sz < 2 ^ 64 ∧ align ∣ 4096
  | .reset => True

/-- A non-null result. -/
structure Grant where
  ptr : ℕ
  size : ℕ
  align : ℕ
deriving DecidableEq, Repr

/-- The bytes of a grant. -/
def Grant.extent (g : Grant) : Set ℕ := Set.Ico g.ptr (g.ptr + g.size)

/-- An arena with its non-null results since the last `Reset`, the latest first. -/
structure Ledger where
  arena : MemArena
  grants : List Grant
deriving Repr

/-- The state after a request; nothing once the process has ended. -/
def serve (asserts : Bool) (s : Ledger) : Request → Option Ledger
  | .reset => some ⟨s.arena.reset, []⟩
  | .allocate alloc_sz align =>
    match s.arena.Allocate asserts alloc_sz align with
    | (.returned ptr, a) => some ⟨a, ⟨ptr, alloc_sz, align⟩ :: s.grants⟩
    | (.null, a) => some ⟨a, s.grants⟩
    | (.aborted, _) => none

/-- The requests one after another. -/
def serveAll (asserts : Bool) (s : Ledger) (reqs : List Request) : Option Ledger :=
  reqs.foldlM (serve asserts) s

/-- The state is one of the run's. -/
def Passes (asserts : Bool) (s : Ledger) (reqs : List Request) (t : Ledger) : Prop :=
  ∃ done, done <+: reqs ∧ serveAll asserts s done = some t

/-- The run calls `Allocate` with these arguments, in this state. -/
def Calls (asserts : Bool) (s : Ledger) (reqs : List Request) (t : Ledger)
    (alloc_sz align : ℕ) : Prop :=
  ∃ done rest, reqs = done ++ .allocate alloc_sz align :: rest ∧ serveAll asserts s done = some t

/-- The results are aligned, inside the pool, and disjoint. -/
structure Ledger.Sound (s : Ledger) : Prop where
  aligned : ∀ g ∈ s.grants, g.align ∣ g.ptr
  bounded : ∀ g ∈ s.grants, s.arena.pool ≤ g.ptr ∧ g.ptr + g.size ≤ s.arena.pool + s.arena.pool_sz
  disjoint : s.grants.Pairwise (fun g g' => Disjoint g.extent g'.extent)

/-- Every state of the run is sound, and a request that does not fit gets the null pointer and
leaves the arena alone. -/
structure Faithful (asserts : Bool) (s : Ledger) (reqs : List Request) : Prop where
  sound : ∀ t, Passes asserts s reqs t → t.Sound
  refuses : ∀ t alloc_sz align, Calls asserts s reqs t alloc_sz align →
    ¬ t.arena.HasRoom alloc_sz align →
    t.arena.Allocate asserts alloc_sz align = (.null, t.arena)

/-- The sum that the bound check looks at. -/
def allocEnd (a : MemArena) (alloc_sz align : ℕ) : ℕ :=
  (roundup a.used align + alloc_sz) % 2 ^ 64

/-- The request fits; or, without assertions, its sum does not wrap round to one that fits. -/
def Admissible (asserts : Bool) (a : MemArena) (alloc_sz align : ℕ) : Prop :=
  a.HasRoom alloc_sz align ∨ asserts = false ∧ a.pool_sz < a.allocEnd alloc_sz align

/-- The host has put the pool at a page, inside the address space. -/
structure HostPool (pool size : ℕ) : Prop where
  page : 4096 ∣ pool
  inside : pool + roundup size 4096 < 2 ^ 64

/-- The state after `Init`. -/
def start (pool size : ℕ) : Ledger := ⟨init pool size, []⟩

/-! ### What a request keeps -/

/-- The results lie in what has been handed out, and that in the pool. -/
structure Ledger.Wf (pool pool_sz : ℕ) (s : Ledger) : Prop where
  pool_eq : s.arena.pool = pool
  pool_sz_eq : s.arena.pool_sz = pool_sz
  used_le : s.arena.used ≤ pool_sz
  aligned : ∀ g ∈ s.grants, g.align ∣ g.ptr
  allocated : ∀ g ∈ s.grants, s.arena.Allocated g.ptr g.size
  disjoint : s.grants.Pairwise (fun g g' => Disjoint g.extent g'.extent)

variable {asserts : Bool} {a : MemArena} {s t : Ledger} {pool pool_sz size align : ℕ}
  {reqs : List Request} {r : Request}

lemma dvd_roundup (x y : ℕ) : y ∣ roundup x y := Dvd.intro_left _ rfl

lemma Ledger.Wf.sound (h : s.Wf pool pool_sz) : s.Sound := by
  refine ⟨h.aligned, fun g hg => ?_, h.disjoint⟩
  obtain ⟨hlo, hhi⟩ := h.allocated g hg
  have hused := h.used_le
  rw [h.pool_sz_eq]
  exact ⟨hlo, by omega⟩

lemma allocate_eq : a.allocate size align = if a.pool_sz < a.allocEnd size align then none
    else some (a.pool + roundup a.used align, { a with used := a.allocEnd size align }) := rfl

lemma Allocate_of_le (h : a.allocEnd size align ≤ a.pool_sz) :
    a.Allocate asserts size align = (.returned (a.pool + roundup a.used align),
      { a with used := a.allocEnd size align }) := by
  rw [Allocate, allocate_eq, if_neg (by omega)]

lemma allocEnd_of_hasRoom (h : a.HasRoom size align) (hsz : a.pool_sz < 2 ^ 64) :
    a.allocEnd size align = roundup a.used align + size := by
  rw [HasRoom] at h
  exact Nat.mod_eq_of_lt (by omega)

/-- A request that fits is served with the block behind what has been handed out. -/
lemma Allocate_of_hasRoom (h : a.HasRoom size align) (hsz : a.pool_sz < 2 ^ 64) :
    a.Allocate asserts size align = (.returned (a.pool + roundup a.used align),
      { a with used := roundup a.used align + size }) := by
  rw [Allocate_of_le (by rw [allocEnd_of_hasRoom h hsz]; exact h), allocEnd_of_hasRoom h hsz]

lemma Allocate_of_lt (h : a.pool_sz < a.allocEnd size align) :
    a.Allocate asserts size align = (if asserts then .aborted else .null, a) := by
  rw [Allocate, allocate_eq, if_pos h]

lemma Ledger.Wf.grant (h : s.Wf pool pool_sz) (hpool : 4096 ∣ pool) (hpages : 4096 ∣ pool_sz)
    (hlt : pool_sz < 2 ^ 64) (hroom : s.arena.HasRoom size align) (halign : align ∣ 4096) :
    Ledger.Wf pool pool_sz ⟨{ s.arena with used := roundup s.arena.used align + size },
      ⟨s.arena.pool + roundup s.arena.used align, size, align⟩ :: s.grants⟩ := by
  have hused := h.used_le
  have hpos : 0 < align := Nat.pos_of_dvd_of_pos halign (by norm_num)
  have hle4096 : align ≤ 4096 := Nat.le_of_dvd (by norm_num) halign
  have hle : s.arena.used ≤ roundup s.arena.used align := le_roundup (by omega) hpos
  rw [HasRoom, h.pool_sz_eq] at hroom
  refine ⟨h.pool_eq, h.pool_sz_eq, hroom, ?_, ?_, ?_⟩
  · rintro g hg
    rcases List.mem_cons.mp hg with rfl | hg
    · rw [h.pool_eq]
      exact dvd_add (halign.trans hpool) (dvd_roundup _ _)
    · exact h.aligned g hg
  · rintro g hg
    rcases List.mem_cons.mp hg with rfl | hg
    · exact ⟨by simp, by simp [Nat.add_assoc]⟩
    · exact (h.allocated g hg).mono rfl (by simp; omega)
  · refine List.pairwise_cons.mpr ⟨fun g hg => ?_, h.disjoint⟩
    -- the older block ends where the new one starts, or before
    obtain ⟨-, hhi⟩ := h.allocated g hg
    rw [Grant.extent, Grant.extent, Set.Ico_disjoint_Ico]
    simp only [le_max_iff, min_le_iff]
    omega

lemma Ledger.Wf.serve (h : s.Wf pool pool_sz) (hpool : 4096 ∣ pool) (hpages : 4096 ∣ pool_sz)
    (hlt : pool_sz < 2 ^ 64) (hr : r.Valid)
    (hadm : ∀ alloc_sz align, r = .allocate alloc_sz align →
      s.arena.Admissible asserts alloc_sz align)
    (ht : serve asserts s r = some t) : t.Wf pool pool_sz := by
  have hsz : s.arena.pool_sz < 2 ^ 64 := by rw [h.pool_sz_eq]; exact hlt
  cases r with
  | reset =>
    cases ht
    exact ⟨h.pool_eq, h.pool_sz_eq, Nat.zero_le _, by simp, by simp, List.Pairwise.nil⟩
  | allocate alloc_sz align =>
    rcases hadm _ _ rfl with hroom | ⟨rfl, hover⟩
    · rw [MemArena.serve, Allocate_of_hasRoom hroom hsz] at ht
      cases ht
      exact h.grant hpool hpages hlt hroom hr.2
    · rw [MemArena.serve, Allocate_of_lt hover] at ht
      cases ht
      exact h

/-! ### What a run keeps -/

lemma serveAll_cons (rest : List Request) :
    serveAll asserts s (r :: rest) = (serve asserts s r).bind (serveAll asserts · rest) := rfl

lemma serveAll_snoc (done : List Request) :
    serveAll asserts s (done ++ [r]) = (serveAll asserts s done).bind (serve asserts · r) := by
  simp [serveAll, List.foldlM_append, Option.bind_eq_bind]

lemma Ledger.Wf.serveAll (h : s.Wf pool pool_sz) (hpool : 4096 ∣ pool) (hpages : 4096 ∣ pool_sz)
    (hlt : pool_sz < 2 ^ 64) (hreqs : ∀ r ∈ reqs, r.Valid)
    (hadm : ∀ t alloc_sz align, Calls asserts s reqs t alloc_sz align →
      t.arena.Admissible asserts alloc_sz align)
    {done : List Request} (hdone : done <+: reqs) (ht : serveAll asserts s done = some t) :
    t.Wf pool pool_sz := by
  induction done using List.reverseRecOn generalizing t with
  | nil =>
    cases ht
    exact h
  | append_singleton done r ih =>
    rw [serveAll_snoc] at ht
    obtain ⟨u, hu, hur⟩ := Option.bind_eq_some_iff.mp ht
    obtain ⟨rest, rfl⟩ := hdone
    have hwf : u.Wf pool pool_sz := ih ⟨r :: rest, by simp⟩ hu
    refine hwf.serve hpool hpages hlt (hreqs r (by simp)) ?_ hur
    rintro alloc_sz align rfl
    exact hadm u alloc_sz align ⟨done, rest, by simp, hu⟩

/-- A run is faithful if and only if every request in it fits, or is turned away by the bound
check in a build without assertions. -/
theorem faithful_iff_admissible (asserts : Bool) (pool size : ℕ) (hhost : HostPool pool size)
    (reqs : List Request) (hreqs : ∀ r ∈ reqs, r.Valid) :
    Faithful asserts (start pool size) reqs ↔
      ∀ t alloc_sz align, Calls asserts (start pool size) reqs t alloc_sz align →
        t.arena.Admissible asserts alloc_sz align := by
  constructor
  · intro h t alloc_sz align hcall
    by_cases hroom : t.arena.HasRoom alloc_sz align
    · exact .inl hroom
    · have hnull := h.refuses t alloc_sz align hcall hroom
      rw [Allocate, allocate_eq] at hnull
      by_cases hover : t.arena.pool_sz < t.arena.allocEnd alloc_sz align
      · rw [if_pos hover] at hnull
        cases asserts with
        | true => cases hnull
        | false => exact .inr ⟨rfl, hover⟩
      · rw [if_neg hover] at hnull
        cases hnull
  · intro hadm
    have hinside := hhost.inside
    have hwf : (start pool size).Wf pool (roundup size 4096) :=
      ⟨rfl, rfl, Nat.zero_le _, by simp [start], by simp [start], List.Pairwise.nil⟩
    refine ⟨?_, ?_⟩
    · rintro t ⟨done, hdone, ht⟩
      exact (hwf.serveAll hhost.page (dvd_roundup _ _) (by omega) hreqs hadm hdone ht).sound
    · intro t alloc_sz align hcall hroom
      obtain ⟨rfl, hover⟩ := (hadm t alloc_sz align hcall).resolve_left hroom
      rw [Allocate_of_lt hover]
      rfl

theorem faithful_iff_admissible_page :
    Faithful false (start 0x10000 4096) [.allocate 16 8, .allocate 5000 1, .reset] ↔
      ∀ t alloc_sz align,
        Calls false (start 0x10000 4096) [.allocate 16 8, .allocate 5000 1, .reset] t alloc_sz
          align →
          t.arena.Admissible false alloc_sz align :=
  faithful_iff_admissible false 0x10000 4096 ⟨by decide, by decide⟩ _ (by simp [Request.Valid])

/-- With 16 bytes handed out, `Allocate(2 ** 64 - 8, 8)` succeeds and takes `used` back to 8: the
next block lies inside the first. -/
theorem not_faithful_wrap :
    ¬ Faithful true (start 0x10000 4096)
      [.allocate 16 8, .allocate (2 ^ 64 - 8) 8, .allocate 8 8] := by
  intro h
  have hwrap : serve true ⟨⟨0x10000, 4096, 16⟩, [⟨0x10000, 16, 8⟩]⟩ (.allocate (2 ^ 64 - 8) 8) =
      some ⟨⟨0x10000, 4096, 8⟩, [⟨0x10010, 2 ^ 64 - 8, 8⟩, ⟨0x10000, 16, 8⟩]⟩ := by
    have hend : allocEnd ⟨0x10000, 4096, 16⟩ (2 ^ 64 - 8) 8 = 8 := by norm_num [allocEnd, roundup]
    rw [serve, Allocate_of_le (by rw [hend]; decide), hend]
    rfl
  have hrun : serveAll true (start 0x10000 4096)
      [.allocate 16 8, .allocate (2 ^ 64 - 8) 8, .allocate 8 8] =
      some ⟨⟨0x10000, 4096, 16⟩,
        [⟨0x10008, 8, 8⟩, ⟨0x10010, 2 ^ 64 - 8, 8⟩, ⟨0x10000, 16, 8⟩]⟩ := by
    have hfirst : serve true (start 0x10000 4096) (.allocate 16 8) =
        some ⟨⟨0x10000, 4096, 16⟩, [⟨0x10000, 16, 8⟩]⟩ := rfl
    rw [serveAll_cons, hfirst, Option.bind_some, serveAll_cons, hwrap, Option.bind_some]
    rfl
  have hdisj := (h.sound _ ⟨_, List.prefix_rfl, hrun⟩).disjoint
  simp [Grant.extent, Set.Ico_disjoint_Ico] at hdisj

end MemArena

end Rv32jit.Runtime
