/-
# The range that is compiled

`GetCompilationIPRange` and the instructions that `TranslateIPRange` makes of its range, against
the window in the page of the entry: from its address to the end of the page, or to the next block
that is known.
-/
import Rv32jit.Runtime.Machine

namespace Rv32jit.Runtime

open Translate

/-- The first address after the page of `ip`. -/
def pageEnd (ip : BitVec 32) : ℕ := (ip.toNat / 4096 + 1) * 4096

/-- `upper` is the end of the page of `ip`, or the start of the first known block above `ip`. -/
def IsWindowEnd (c : TCache) (ip : BitVec 32) (upper : ℕ) : Prop :=
  IsLeast {a | a = pageEnd ip ∨ ip.toNat < a ∧ (c.tcache_map.find a).isSome} upper

/-- The states of the translator at the head of the loop of `TranslateIPRange`, with the number of
instructions that are left until the limit. -/
inductive Visits (prog : BitVec 32 → BitVec 32) (boundary_ip : BitVec 32) (t₀ : Translator) :
    ℕ → Translator → Prop
  | start : Visits prog boundary_ip t₀ TB_MAX_INSNS t₀
  | next {n : ℕ} {t t' : Translator} : Visits prog boundary_ip t₀ (n + 1) t →
      t.translateInsn prog = some t' → t'.control = .NEXT → n ≠ 0 →
      ¬ boundary_ip ≤ t'.insn_ip → Visits prog boundary_ip t₀ n t'

/-- The range is the window at `ip`, the assertion of `TranslateIPRange` holds for it, and all
instructions that are translated are in it. -/
structure CompilesWindow (c : TCache) (prog : BitVec 32 → BitVec 32) (ip : BitVec 32) : Prop where
  lower : (getCompilationIPRange c ip).1 = ip
  upper : IsWindowEnd c ip (getCompilationIPRange c ip).2.toNat
  nonempty : ip < (getCompilationIPRange c ip).2
  asserted : (getCompilationIPRange c ip).2 ≠ 0
  inside : ∀ t₀, t₀.insn_ip = ip → ∀ n t, Visits prog (getCompilationIPRange c ip).2 t₀ n t →
    ip ≤ t.insn_ip ∧ t.insn_ip < (getCompilationIPRange c ip).2

variable {c : TCache} {prog : BitVec 32 → BitVec 32} {ip boundary_ip : BitVec 32}

/-- Rounding up leaves the start of a page as it is, and wraps around in the last page. -/
lemma toNat_roundupPage (ip : BitVec 32) :
    (roundupPage ip).toNat =
      if ip.toNat % 4096 = 0 then ip.toNat
      else if ip.toNat < 0xFFFFF000 then pageEnd ip else 0 := by
  have hlt := ip.isLt
  have hsum : (ip + 0xFFF#32).toNat = (ip.toNat + 4095) % 2 ^ 32 := BitVec.toNat_add _ _
  have hmul : (roundupPage ip).toNat = (ip.toNat + 4095) % 2 ^ 32 / 4096 * 4096 % 2 ^ 32 := by
    rw [roundupPage, BitVec.toNat_mul, BitVec.toNat_udiv, hsum]
    rfl
  rw [hmul, pageEnd]
  split
  · omega
  · split <;> omega

lemma range_fst (c : TCache) (ip : BitVec 32) : (getCompilationIPRange c ip).1 = ip := by
  rw [getCompilationIPRange]
  split <;> rfl

/-- The upper end is at most the address rounded up. -/
lemma range_snd_le (c : TCache) (ip : BitVec 32) :
    (getCompilationIPRange c ip).2.toNat ≤ (roundupPage ip).toNat := by
  rw [getCompilationIPRange]
  split
  · simp only
    split
    · rename_i hlt
      exact (BitVec.lt_def.mp hlt).le
    · exact le_rfl
  · exact le_rfl

/-- Where rounding up gives the end of the page, the upper end is right. -/
lemma range_snd_isLeast (hkeyed : ∀ k tb, c.tcache_map.find k = some tb → k = tb.ip.toNat)
    (hround : (roundupPage ip).toNat = pageEnd ip) :
    IsWindowEnd c ip (getCompilationIPRange c ip).2.toNat := by
  rw [getCompilationIPRange]
  cases hub : c.lookupUpperBound ip with
  | none =>
    refine ⟨Or.inl hround, fun a ha => ?_⟩
    rcases ha with rfl | ⟨hlt, hsome⟩
    · exact hround.le
    · rw [OrdMap.upperBound_eq_none hub a hlt] at hsome
      cases hsome
  | some tb =>
    obtain ⟨k, hk, hfind, hleast⟩ := OrdMap.upperBound_eq_some hub
    have hip := hkeyed k tb hfind
    simp only
    split
    · rename_i hlt
      refine ⟨Or.inr ⟨by omega, by rw [← hip, hfind]; rfl⟩, fun a ha => ?_⟩
      rcases ha with rfl | ⟨hlt', hsome⟩
      · exact hround ▸ (BitVec.lt_def.mp hlt).le
      · exact hip ▸ hleast a hlt' hsome
    · rename_i hge
      refine ⟨Or.inl hround, fun a ha => ?_⟩
      rcases ha with rfl | ⟨hlt', hsome⟩
      · exact hround.le
      · exact (BitVec.le_def.mp (BitVec.not_lt.mp hge)).trans (hip ▸ hleast a hlt' hsome)

/-- The loop stays below a boundary after which another instruction begins. -/
lemma visits_inside {t₀ : Translator} (h₀ : t₀.insn_ip < boundary_ip)
    (hroom : boundary_ip.toNat + 4 ≤ 2 ^ 32) {n : ℕ} {t : Translator}
    (hv : Visits prog boundary_ip t₀ n t) :
    t₀.insn_ip ≤ t.insn_ip ∧ t.insn_ip < boundary_ip := by
  induction hv with
  | start => exact ⟨BitVec.le_refl _, h₀⟩
  | next hv ht hctl hn hcut ih =>
    obtain ⟨h1, h2⟩ := ih
    obtain ⟨-, hip, -⟩ := numAll_translateInsn ht
    refine ⟨?_, BitVec.not_le.mp hcut⟩
    have h1 := BitVec.le_def.mp h1
    have h2 := BitVec.lt_def.mp h2
    rw [hip, BitVec.le_def, BitVec.toNat_add, show (4 : BitVec 32).toNat = 4 from rfl]
    omega

/-- The range is the window at `ip` if and only if `ip` is not the first address of a page and not
in the last page. -/
theorem compilesWindow_iff (c : TCache) (prog : BitVec 32 → BitVec 32) (ip : BitVec 32)
    (hkeyed : ∀ k tb, c.tcache_map.find k = some tb → k = tb.ip.toNat) :
    CompilesWindow c prog ip ↔ ip.toNat % 4096 ≠ 0 ∧ ip.toNat < 0xFFFFF000 := by
  have hround := toNat_roundupPage ip
  constructor
  · intro h
    have hlt := BitVec.lt_def.mp h.nonempty
    have hle := range_snd_le c ip
    split at hround
    · omega
    · rename_i hdvd
      split at hround
      · rename_i hlow
        exact ⟨hdvd, hlow⟩
      · omega
  · rintro ⟨hdvd, hlow⟩
    rw [if_neg hdvd, if_pos hlow] at hround
    have hup := range_snd_isLeast hkeyed hround
    have hle := range_snd_le c ip
    have hlt : ip < (getCompilationIPRange c ip).2 := by
      rw [BitVec.lt_def]
      rcases hup.1 with heq | ⟨hlt, -⟩
      · rw [heq, pageEnd]
        omega
      · exact hlt
    have hlt' := BitVec.lt_def.mp hlt
    refine ⟨range_fst c ip, hup, hlt, fun h0 => ?_, fun t₀ ht₀ n t hv => ?_⟩
    · rw [h0] at hlt'
      exact Nat.not_lt_zero _ hlt'
    · subst ht₀
      refine visits_inside hlt ?_ hv
      rw [pageEnd] at hround
      omega

/-- A cache with one block, at address 0x11100. -/
def middleCache : TCache := TCache.init.insert ⟨0, ⟨0x10, 0x20⟩, 0x11100⟩

/-- In the middle of a page, below a block that is known: a range of `nop`s up to the block. -/
theorem compilesWindow_iff_middle :
    (getCompilationIPRange middleCache 0x11004).2 = 0x11100 ∧
      CompilesWindow middleCache (fun _ => 0x13) 0x11004 := by
  refine ⟨by decide, (compilesWindow_iff _ _ _ fun k tb h => ?_).mpr ⟨by decide, by decide⟩⟩
  obtain ⟨rfl, rfl⟩ := Prod.mk.inj (List.mem_singleton.mp (OrdMap.find_eq_some.mp h))
  rfl

/-- At the start of a page the range is empty, and in the last page its boundary is 0. -/
theorem not_compilesWindow_page :
    getCompilationIPRange .init 0x11000 = (0x11000, 0x11000) ∧
      getCompilationIPRange .init 0xFFFFF004 = (0xFFFFF004, 0) ∧
      ¬ CompilesWindow .init (fun _ => 0) 0x11000 := by
  have hrange : getCompilationIPRange .init 0x11000 = (0x11000, 0x11000) := by decide
  refine ⟨hrange, by decide, fun h => ?_⟩
  have hlt := h.nonempty
  rw [hrange] at hlt
  exact absurd hlt (by decide)

end Rv32jit.Runtime
