/-
# Ordered maps

Maps and multimaps over an ordered type of keys, as their entries in ascending order.  An
iterator is the list of the entries from its position on, and the empty list is the end, so a
loop that erases entries up to a bound is a recursion over a list.
-/
import Mathlib.Order.Lattice
import Mathlib.Data.List.Basic
import Mathlib.Data.List.TakeWhile

namespace Rv32jit

variable {κ α : Type} [LinearOrder κ]

/-- `upper_bound`: the entries whose key is greater. -/
def beyond (k : κ) (l : List (κ × α)) : List (κ × α) := l.dropWhile fun e => e.1 ≤ k

/-- The entries before `upper_bound`. -/
def upTo (k : κ) (l : List (κ × α)) : List (κ × α) := l.takeWhile fun e => e.1 ≤ k

/-- Erases entries from the iterator on while the key is less than the bound.  The erased entries
and the iterator at the end; nothing if the loop reads the key of the end of the map. -/
def eraseBelow (bound : κ) : List (κ × α) → Option (List (κ × α) × List (κ × α))
  | [] => none
  | e :: l =>
      if e.1 < bound then (eraseBelow bound l).map fun r => (e :: r.1, r.2) else some ([], e :: l)

/-! ### Sorted lists of entries -/

/-- The keys ascend, those of a multimap not strictly. -/
def Ascending (l : List (κ × α)) : Prop := l.Pairwise fun x y => x.1 ≤ y.1

lemma upTo_append_beyond (k : κ) (l : List (κ × α)) : upTo k l ++ beyond k l = l :=
  List.takeWhile_append_dropWhile

lemma mem_iff_mem_upTo_or_mem_beyond (k : κ) {l : List (κ × α)} {e : κ × α} :
    e ∈ l ↔ e ∈ upTo k l ∨ e ∈ beyond k l := by
  rw [← List.mem_append, upTo_append_beyond]

lemma mem_upTo {k : κ} {l : List (κ × α)} {e : κ × α} (h : e ∈ upTo k l) : e ∈ l ∧ e.1 ≤ k :=
  ⟨List.takeWhile_subset _ h, by simpa using List.mem_takeWhile_imp h⟩

lemma mem_beyond {k : κ} {l : List (κ × α)} {e : κ × α} (hl : Ascending l) :
    e ∈ beyond k l ↔ e ∈ l ∧ k < e.1 := by
  induction l with
  | nil => simp [beyond]
  | cons x l ih =>
    obtain ⟨hx, hl⟩ := List.pairwise_cons.mp hl
    rw [beyond, List.dropWhile_cons]
    split
    · rename_i hle
      have hle : x.1 ≤ k := by simpa using hle
      rw [show List.dropWhile _ l = beyond k l from rfl, ih hl, List.mem_cons]
      constructor
      · rintro ⟨h1, h2⟩
        exact ⟨Or.inr h1, h2⟩
      · rintro ⟨rfl | h1, h2⟩
        · exact absurd hle (not_le.mpr h2)
        · exact ⟨h1, h2⟩
    · rename_i hgt
      have hgt : k < x.1 := by simpa using hgt
      refine ⟨fun h => ⟨h, ?_⟩, fun h => h.1⟩
      rcases List.mem_cons.mp h with rfl | h
      · exact hgt
      · exact lt_of_lt_of_le hgt (hx e h)

lemma ascending_beyond {k : κ} {l : List (κ × α)} (hl : Ascending l) : Ascending (beyond k l) :=
  hl.sublist (List.dropWhile_sublist _)

/-- The loop ends if there is an entry at or above the bound, and only then. -/
lemma eraseBelow_isSome {bound : κ} {l : List (κ × α)} :
    (∃ r, eraseBelow bound l = some r) ↔ ∃ e ∈ l, bound ≤ e.1 := by
  induction l with
  | nil => simp [eraseBelow]
  | cons x l ih =>
    rw [eraseBelow]
    split
    · rename_i hlt
      constructor
      · rintro ⟨r, hr⟩
        obtain ⟨r', hr', -⟩ := Option.map_eq_some_iff.mp hr
        obtain ⟨e, he, hb⟩ := ih.mp ⟨r', hr'⟩
        exact ⟨e, List.mem_cons_of_mem _ he, hb⟩
      · rintro ⟨e, he, hb⟩
        rcases List.mem_cons.mp he with rfl | he
        · exact absurd hlt (not_lt.mpr hb)
        · obtain ⟨r, hr⟩ := ih.mpr ⟨e, he, hb⟩
          exact ⟨_, by rw [hr]; rfl⟩
    · rename_i hge
      exact ⟨fun _ => ⟨x, List.mem_cons_self, not_lt.mp hge⟩, fun _ => ⟨_, rfl⟩⟩

/-- What the loop erases and what it leaves. -/
lemma eraseBelow_eq_some {bound : κ} {l erased rest : List (κ × α)} (hl : Ascending l)
    (h : eraseBelow bound l = some (erased, rest)) :
    erased ++ rest = l ∧ (∀ e ∈ erased, e.1 < bound) ∧ ∀ e ∈ rest, bound ≤ e.1 := by
  induction l generalizing erased rest with
  | nil => cases h
  | cons x l ih =>
    obtain ⟨hx, hl⟩ := List.pairwise_cons.mp hl
    rw [eraseBelow] at h
    split at h
    · rename_i hlt
      obtain ⟨⟨er, re⟩, hr, heq⟩ := Option.map_eq_some_iff.mp h
      cases heq
      obtain ⟨h1, h2, h3⟩ := ih hl hr
      refine ⟨by rw [List.cons_append, h1], ?_, h3⟩
      rintro e he
      rcases List.mem_cons.mp he with rfl | he
      · exact hlt
      · exact h2 e he
    · rename_i hge
      cases h
      refine ⟨rfl, by simp, ?_⟩
      rintro e he
      rcases List.mem_cons.mp he with rfl | he
      · exact not_lt.mp hge
      · exact (not_lt.mp hge).trans (hx e he)

/-- A loop over the entries from `upper_bound(k)` on that erases those below the bound; the
erased entries and the entries that are left. -/
def eraseRange (k bound : κ) (l : List (κ × α)) : Option (List (κ × α) × List (κ × α)) :=
  (eraseBelow bound (beyond k l)).map fun r => (r.1, upTo k l ++ r.2)

lemma eraseRange_isSome {k bound : κ} {l : List (κ × α)} (hl : Ascending l) (hk : k < bound) :
    (∃ r, eraseRange k bound l = some r) ↔ ∃ e ∈ l, bound ≤ e.1 := by
  have hiff : (∃ e ∈ beyond k l, bound ≤ e.1) ↔ ∃ e ∈ l, bound ≤ e.1 := by
    constructor
    · rintro ⟨e, he, hb⟩
      exact ⟨e, ((mem_beyond hl).mp he).1, hb⟩
    · rintro ⟨e, he, hb⟩
      exact ⟨e, (mem_beyond hl).mpr ⟨he, lt_of_lt_of_le hk hb⟩, hb⟩
  rw [← hiff, ← eraseBelow_isSome]
  constructor
  · rintro ⟨r, hr⟩
    obtain ⟨r', hr', -⟩ := Option.map_eq_some_iff.mp hr
    exact ⟨r', hr'⟩
  · rintro ⟨r, hr⟩
    exact ⟨_, by rw [eraseRange, hr]; rfl⟩

lemma eraseRange_eq_some {k bound : κ} {l erased rest : List (κ × α)} (hl : Ascending l)
    (h : eraseRange k bound l = some (erased, rest)) :
    rest.Sublist l ∧ (∀ e, e ∈ erased ↔ e ∈ l ∧ k < e.1 ∧ e.1 < bound) ∧
      ∀ e, e ∈ rest ↔ e ∈ l ∧ ¬ (k < e.1 ∧ e.1 < bound) := by
  obtain ⟨⟨er, re⟩, hr, heq⟩ := Option.map_eq_some_iff.mp h
  cases heq
  obtain ⟨happ, hlt, hge⟩ := eraseBelow_eq_some (ascending_beyond hl) hr
  have hmem : ∀ e, e ∈ l ∧ k < e.1 ↔ e ∈ er ∨ e ∈ re := fun e => by
    rw [← mem_beyond hl, ← happ, List.mem_append]
  have hup : ∀ e, e ∈ upTo k l ↔ e ∈ l ∧ e.1 ≤ k := by
    refine fun e => ⟨mem_upTo, fun ⟨h1, h2⟩ => ?_⟩
    rcases (mem_iff_mem_upTo_or_mem_beyond k).mp h1 with h1 | h1
    · exact h1
    · exact absurd ((mem_beyond hl).mp h1).2 (not_lt.mpr h2)
  refine ⟨?_, fun e => ⟨fun he => ?_, fun ⟨h1, h2, h3⟩ => ?_⟩, fun e => ?_⟩
  · have hsub : re.Sublist (beyond k l) := by
      rw [← happ]
      exact List.sublist_append_right _ _
    have happend := hsub.append_left (upTo k l)
    rwa [upTo_append_beyond] at happend
  · obtain ⟨h1, h2⟩ := (hmem e).mpr (Or.inl he)
    exact ⟨h1, h2, hlt e he⟩
  · rcases (hmem e).mp ⟨h1, h2⟩ with he | he
    · exact he
    · exact absurd h3 (not_lt.mpr (hge e he))
  · rw [List.mem_append, hup]
    constructor
    · rintro (⟨h1, h2⟩ | he)
      · exact ⟨h1, fun h => absurd h.1 (not_lt.mpr h2)⟩
      · obtain ⟨h1, h2⟩ := (hmem e).mpr (Or.inr he)
        exact ⟨h1, fun h => absurd h.2 (not_lt.mpr (hge e he))⟩
    · rintro ⟨h1, h2⟩
      by_cases hk : k < e.1
      · rcases (hmem e).mp ⟨h1, hk⟩ with he | he
        · exact absurd ⟨hk, hlt e he⟩ h2
        · exact Or.inr he
      · exact Or.inl ⟨h1, not_lt.mp hk⟩

/-! ### Maps -/

/-- A map: its keys ascend strictly. -/
structure OrdMap (κ α : Type) [LinearOrder κ] where
  entries : List (κ × α)
  sorted : entries.Pairwise fun x y => x.1 < y.1

namespace OrdMap

/-- The map without keys. -/
def empty : OrdMap κ α := ⟨[], .nil⟩

variable {m : OrdMap κ α}

lemma ascending (m : OrdMap κ α) : Ascending m.entries := m.sorted.imp le_of_lt

/-- `find`. -/
def find (m : OrdMap κ α) (k : κ) : Option α := (m.entries.find? fun e => e.1 = k).map Prod.snd

lemma find_eq_some {k : κ} {v : α} : m.find k = some v ↔ (k, v) ∈ m.entries := by
  obtain ⟨l, hl⟩ := m
  simp only [find]
  induction l with
  | nil => simp
  | cons x l ih =>
    obtain ⟨hx, hl⟩ := List.pairwise_cons.mp hl
    rw [List.find?_cons]
    by_cases hk : x.1 = k
    · subst hk
      simp only [decide_true, Option.map_some, Option.some.injEq, List.mem_cons]
      constructor
      · rintro rfl
        exact Or.inl rfl
      · rintro (h | h)
        · rw [← h]
        · exact absurd (hx _ h) (lt_irrefl _)
    · simp only [hk, decide_false]
      rw [ih hl, List.mem_cons]
      constructor
      · exact Or.inr
      · rintro (h | h)
        · rw [← h] at hk
          exact absurd rfl hk
        · exact h

lemma find_eq_none {k : κ} : m.find k = none ↔ ∀ v, (k, v) ∉ m.entries := by
  constructor
  · intro h v hv
    rw [find_eq_some.mpr hv] at h
    cases h
  · intro h
    cases hf : m.find k with
    | none => rfl
    | some v => exact absurd (find_eq_some.mp hf) (h v)

/-- `insert`, which leaves a key that the map has already as it is. -/
def insert (m : OrdMap κ α) (k : κ) (v : α) : OrdMap κ α :=
  if h : m.find k = none then
    { entries := upTo k m.entries ++ (k, v) :: beyond k m.entries
      sorted := by
        have hsplit := m.sorted
        rw [← upTo_append_beyond k m.entries, List.pairwise_append] at hsplit
        obtain ⟨h1, h2, h3⟩ := hsplit
        refine List.pairwise_append.mpr ⟨h1, List.pairwise_cons.mpr ⟨fun e he => ?_, h2⟩, ?_⟩
        · exact ((mem_beyond m.ascending).mp he).2
        · intro e he e' he'
          rcases List.mem_cons.mp he' with rfl | he'
          · refine lt_of_le_of_ne (mem_upTo he).2 ?_
            rintro rfl
            exact find_eq_none.mp h e.2 (mem_upTo he).1
          · exact h3 e he e' he' }
  else m

lemma mem_insert {k : κ} {v : α} (h : m.find k = none) {e : κ × α} :
    e ∈ (m.insert k v).entries ↔ e = (k, v) ∨ e ∈ m.entries := by
  rw [insert, dif_pos h, mem_iff_mem_upTo_or_mem_beyond k (l := m.entries)]
  simp only [List.mem_append, List.mem_cons]
  tauto

lemma find_insert {k k' : κ} {v : α} (h : m.find k = none) :
    (m.insert k v).find k' = if k' = k then some v else m.find k' := by
  split
  · rename_i hk
    rw [hk, find_eq_some, mem_insert h]
    exact Or.inl rfl
  · rename_i hk
    cases hf : m.find k' with
    | none =>
      rw [find_eq_none] at hf ⊢
      intro w hw
      rcases (mem_insert h).mp hw with heq | hw
      · cases heq
        exact hk rfl
      · exact hf w hw
    | some w =>
      rw [find_eq_some] at hf ⊢
      exact (mem_insert h).mpr (Or.inr hf)

/-- The value of the least key above `k`. -/
def upperBound (m : OrdMap κ α) (k : κ) : Option α := (beyond k m.entries).head?.map Prod.snd

/-- `upper_bound` stops at the least key above `k`. -/
lemma upperBound_eq_some {k : κ} {v : α} (h : m.upperBound k = some v) :
    ∃ k', k < k' ∧ m.find k' = some v ∧ ∀ j, k < j → (m.find j).isSome → k' ≤ j := by
  obtain ⟨⟨k', v'⟩, hhead, rfl⟩ := Option.map_eq_some_iff.mp h
  have hmem := (mem_beyond m.ascending).mp (List.mem_of_head? hhead)
  refine ⟨k', hmem.2, find_eq_some.mpr hmem.1, fun j hj hsome => ?_⟩
  obtain ⟨w, hw⟩ := Option.isSome_iff_exists.mp hsome
  have hjw : (j, w) ∈ beyond k m.entries := (mem_beyond m.ascending).mpr ⟨find_eq_some.mp hw, hj⟩
  obtain ⟨l, hl⟩ := List.head?_eq_some_iff.mp hhead
  have hsorted := ascending_beyond (k := k) m.ascending
  rw [hl] at hjw hsorted
  rcases List.mem_cons.mp hjw with heq | hjw
  · exact (Prod.ext_iff.mp heq).1.ge
  · exact (List.pairwise_cons.mp hsorted).1 _ hjw

lemma upperBound_eq_none {k : κ} (h : m.upperBound k = none) :
    ∀ j, k < j → m.find j = none := by
  intro j hj
  rw [find_eq_none]
  intro v hv
  have hmem : (j, v) ∈ beyond k m.entries := (mem_beyond m.ascending).mpr ⟨hv, hj⟩
  rw [upperBound, Option.map_eq_none_iff, List.head?_eq_none_iff] at h
  rw [h] at hmem
  cases hmem

/-- The loop of `eraseRange` on a map. -/
def eraseRange (m : OrdMap κ α) (k bound : κ) : Option (OrdMap κ α) :=
  match h : Rv32jit.eraseRange k bound m.entries with
  | some (_, rest) => some ⟨rest, m.sorted.sublist (eraseRange_eq_some m.ascending h).1⟩
  | none => none

lemma isSome_eraseRange {k bound : κ} (hk : k < bound) :
    (∃ m', m.eraseRange k bound = some m') ↔ ∃ e ∈ m.entries, bound ≤ e.1 := by
  rw [← eraseRange_isSome m.ascending hk, eraseRange]
  split
  · rename_i r h
    exact ⟨fun _ => ⟨_, h⟩, fun _ => ⟨_, rfl⟩⟩
  · rename_i h
    rw [h]
    simp

lemma mem_eraseRange {k bound : κ} {m' : OrdMap κ α} (h : m.eraseRange k bound = some m')
    {e : κ × α} : e ∈ m'.entries ↔ e ∈ m.entries ∧ ¬ (k < e.1 ∧ e.1 < bound) := by
  rw [eraseRange] at h
  split at h
  · rename_i hr
    cases h
    exact (eraseRange_eq_some m.ascending hr).2.2 e
  · cases h

lemma find_eraseRange {k bound k' : κ} {m' : OrdMap κ α} (h : m.eraseRange k bound = some m') :
    m'.find k' = if k < k' ∧ k' < bound then none else m.find k' := by
  split
  · rename_i hk
    rw [find_eq_none]
    exact fun v hv => ((mem_eraseRange h).mp hv).2 hk
  · rename_i hk
    cases hf : m.find k' with
    | none =>
      rw [find_eq_none] at hf ⊢
      exact fun v hv => hf v ((mem_eraseRange h).mp hv).1
    | some v =>
      rw [find_eq_some] at hf ⊢
      exact (mem_eraseRange h).mpr ⟨hf, hk⟩

end OrdMap

/-- A multimap. -/
structure OrdMultimap (κ α : Type) [LinearOrder κ] where
  entries : List (κ × α)
  sorted : Ascending entries

namespace OrdMultimap

/-- The map without entries. -/
def empty : OrdMultimap κ α := ⟨[], .nil⟩

variable {m : OrdMultimap κ α}

/-- `insert`, behind the entries of the same key. -/
def insert (m : OrdMultimap κ α) (k : κ) (v : α) : OrdMultimap κ α where
  entries := upTo k m.entries ++ (k, v) :: beyond k m.entries
  sorted := by
    have hsplit : (upTo k m.entries ++ beyond k m.entries).Pairwise fun x y => x.1 ≤ y.1 := by
      rw [upTo_append_beyond]
      exact m.sorted
    obtain ⟨h1, h2, h3⟩ := List.pairwise_append.mp hsplit
    refine List.pairwise_append.mpr ⟨h1, List.pairwise_cons.mpr ⟨fun e he => ?_, h2⟩, ?_⟩
    · exact le_of_lt ((mem_beyond m.sorted).mp he).2
    · intro e he e' he'
      rcases List.mem_cons.mp he' with rfl | he'
      · exact (mem_upTo he).2
      · exact h3 e he e' he'

lemma mem_insert {k : κ} {v : α} {e : κ × α} :
    e ∈ (m.insert k v).entries ↔ e = (k, v) ∨ e ∈ m.entries := by
  rw [mem_iff_mem_upTo_or_mem_beyond (l := m.entries) k]
  simp only [insert, List.mem_append, List.mem_cons]
  tauto

/-- The loop of `eraseRange` on a multimap, with the entries that it erases. -/
def eraseRange (m : OrdMultimap κ α) (k bound : κ) : Option (List (κ × α) × OrdMultimap κ α) :=
  match h : Rv32jit.eraseRange k bound m.entries with
  | some (erased, rest) =>
      some (erased, ⟨rest, m.sorted.sublist (eraseRange_eq_some m.sorted h).1⟩)
  | none => none

lemma isSome_eraseRange {k bound : κ} (hk : k < bound) :
    (∃ r, m.eraseRange k bound = some r) ↔ ∃ e ∈ m.entries, bound ≤ e.1 := by
  rw [← eraseRange_isSome m.sorted hk, eraseRange]
  split
  · rename_i r h
    exact ⟨fun _ => ⟨_, h⟩, fun _ => ⟨_, rfl⟩⟩
  · rename_i h
    rw [h]
    simp

lemma mem_eraseRange {k bound : κ} {erased : List (κ × α)} {m' : OrdMultimap κ α}
    (h : m.eraseRange k bound = some (erased, m')) (e : κ × α) :
    (e ∈ erased ↔ e ∈ m.entries ∧ k < e.1 ∧ e.1 < bound) ∧
      (e ∈ m'.entries ↔ e ∈ m.entries ∧ ¬ (k < e.1 ∧ e.1 < bound)) := by
  rw [eraseRange] at h
  split at h
  · rename_i hr
    cases h
    obtain ⟨-, h1, h2⟩ := eraseRange_eq_some m.sorted hr
    exact ⟨h1 e, h2 e⟩
  · cases h

end OrdMultimap

end Rv32jit
