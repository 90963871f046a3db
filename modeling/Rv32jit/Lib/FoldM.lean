/-
# Loops that may fail

A loop of a program that may abort is a left fold in the option monad.  The rules below carry
an invariant through such a loop, indexed by the number of rounds that have been run, or show
that the loop does not abort.
-/
import Mathlib.Tactic

namespace FoldM

variable {σ α : Type*} {f : σ → α → Option σ}

lemma foldlM_cons_eq_some {a : α} {l : List α} {s t : σ} :
    (a :: l).foldlM f s = some t ↔ ∃ u, f s a = some u ∧ l.foldlM f u = some t := by
  simp [List.foldlM_cons, Option.bind_eq_some_iff]

lemma foldlM_nil_eq_some {s t : σ} : ([] : List α).foldlM f s = some t ↔ s = t := by
  simp [List.foldlM_nil]

/-- The invariant rule: what holds before the first round and is kept by every round holds
after the last one. -/
lemma invariant {P : ℕ → σ → Prop} {l : List α} {s t : σ} (h : l.foldlM f s = some t)
    (h0 : P 0 s)
    (hstep : ∀ (i : ℕ) (hi : i < l.length) (u u' : σ), P i u → f u l[i] = some u' → P (i + 1) u') :
    P l.length t := by
  induction l generalizing s P with
  | nil =>
    rw [foldlM_nil_eq_some] at h
    subst h
    exact h0
  | cons a l ih =>
    obtain ⟨u, hu, hl⟩ := foldlM_cons_eq_some.mp h
    have h1 : P 1 u := hstep 0 (by simp) s u h0 hu
    exact ih (P := fun i => P (i + 1)) hl h1 fun i hi v v' hv hf =>
      hstep (i + 1) (by simpa using hi) v v' hv (by simpa using hf)

/-- The invariant rule for a loop that counts from `0` up to `n`. -/
lemma invariant_range {f : σ → ℕ → Option σ} {P : ℕ → σ → Prop} {n : ℕ} {s t : σ}
    (h : (List.range n).foldlM f s = some t) (h0 : P 0 s)
    (hstep : ∀ i < n, ∀ u u', P i u → f u i = some u' → P (i + 1) u') : P n t := by
  have := invariant (P := P) h h0 fun i hi u u' hu hf =>
    hstep i (by simpa using hi) u u' hu (by simpa using hf)
  simpa using this

/-- The completion rule: a loop completes if every round does and keeps what the next one
needs. -/
lemma total {P : ℕ → σ → Prop} {l : List α} {s : σ} (h0 : P 0 s)
    (hstep : ∀ (i : ℕ) (hi : i < l.length) (u : σ), P i u →
      ∃ u', f u l[i] = some u' ∧ P (i + 1) u') :
    ∃ t, l.foldlM f s = some t ∧ P l.length t := by
  induction l generalizing s P with
  | nil => exact ⟨s, rfl, h0⟩
  | cons a l ih =>
    obtain ⟨u, hu, h1⟩ := hstep 0 (by simp) s h0
    obtain ⟨t, ht, hP⟩ := ih (P := fun i => P (i + 1)) h1 fun i hi v hv =>
      hstep (i + 1) (by simpa using hi) v hv
    exact ⟨t, foldlM_cons_eq_some.mpr ⟨u, hu, ht⟩, hP⟩

/-- The completion rule for a loop that counts from `0` up to `n`. -/
lemma total_range {f : σ → ℕ → Option σ} {P : ℕ → σ → Prop} {n : ℕ} {s : σ} (h0 : P 0 s)
    (hstep : ∀ i < n, ∀ u, P i u → ∃ u', f u i = some u' ∧ P (i + 1) u') :
    ∃ t, (List.range n).foldlM f s = some t ∧ P n t := by
  obtain ⟨t, ht, hP⟩ := total (l := List.range n) h0 fun i hi u hu => by
    simpa using hstep i (by simpa using hi) u hu
  exact ⟨t, ht, by simpa using hP⟩

/-- A reflexive and transitive relation that holds of every round holds of the loop. -/
lemma relates {R : σ → σ → Prop} (hrefl : ∀ s, R s s) (htrans : ∀ s t u, R s t → R t u → R s u)
    {l : List α} {s t : σ} (h : l.foldlM f s = some t)
    (hstep : ∀ a ∈ l, ∀ u u', f u a = some u' → R u u') : R s t := by
  induction l generalizing s with
  | nil =>
    rw [foldlM_nil_eq_some] at h
    subst h
    exact hrefl s
  | cons a l ih =>
    obtain ⟨u, hu, hl⟩ := foldlM_cons_eq_some.mp h
    exact htrans _ _ _ (hstep a (by simp) s u hu)
      (ih hl fun b hb => hstep b (List.mem_cons_of_mem a hb))

/-- What every round keeps the loop keeps. -/
lemma keeps {P : σ → Prop} {l : List α} {s t : σ} (h : l.foldlM f s = some t) (h0 : P s)
    (hstep : ∀ a ∈ l, ∀ u u', f u a = some u' → P u → P u') : P t :=
  relates (R := fun u u' => P u → P u') (fun _ => id) (fun _ _ _ g k => k ∘ g) h hstep h0

end FoldM
