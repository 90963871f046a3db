/-
# Intrusive lists

`util/ilist.h`: the nodes carry their own links, and a list is a sentinel node that closes its
nodes to a ring.  The links of all nodes are one state, in which any number of lists live; an
operation on one list is given a node by its address and rewires what that node's links say.
-/
import Rv32jit.Lib.Ring

namespace Rv32jit

namespace IList

open Links

variable {α : Type*} [DecidableEq α]

/-- Overwrites the link to the previous node. -/
def setPrev (lk : Links α) (n p : α) : Links α := { lk with prev := Function.update lk.prev n p }

/-- Overwrites the link to the next node. -/
def setNext (lk : Links α) (n p : α) : Links α := { lk with next := Function.update lk.next n p }

/-- `IListBase::insertBefore`. -/
def insertBefore (lk : Links α) (next node : α) : Links α :=
  let prev := lk.prev next
  let lk := setNext lk node next
  let lk := setPrev lk node prev
  let lk := setNext lk prev node
  setPrev lk next node

/-- `IListBase::remove`; the node keeps its own links. -/
def remove (lk : Links α) (node : α) : Links α :=
  let prev := lk.prev node
  let next := lk.next node
  let lk := setPrev lk next prev
  setNext lk prev next

/-- `IListSentinel::reset`, in which its constructor ends. -/
def reset (lk : Links α) (sentinel : α) : Links α :=
  setNext (setPrev lk sentinel sentinel) sentinel sentinel

/-- `empty`: the sentinel is its own neighbour. -/
def empty (lk : Links α) (sentinel : α) : Bool := lk.prev sentinel = sentinel

/-- An iterator is the node it stands at. -/
def insert (lk : Links α) (it n : α) : Links α := insertBefore lk it n

/-- `end`. -/
def endIt (sentinel : α) : α := sentinel

/-- `begin`. -/
def beginIt (lk : Links α) (sentinel : α) : α := lk.next sentinel

/-- `push_back`: inserts before the sentinel. -/
def push_back (lk : Links α) (sentinel n : α) : Links α := insert lk (endIt sentinel) n

/-- `erase`, with the iterator it returns; nothing where its assertion fails. -/
def erase (lk : Links α) (sentinel it : α) : Option (Links α × α) :=
  if endIt sentinel = it then none
  else some (remove lk it, lk.next it)

/-- A loop from `it` up to `stop`, with the nodes it visits. -/
def traverse (step : α → α) (stop : α) : ℕ → α → Option (List α)
  | 0, it => if it = stop then some [] else none
  | fuel + 1, it =>
    if it = stop then some [] else (traverse step stop fuel (step it)).map (it :: ·)

/-- `for (it = begin(); it != end(); ++it)`. -/
def forward (lk : Links α) (sentinel : α) (fuel : ℕ) : Option (List α) :=
  traverse lk.next (endIt sentinel) fuel (beginIt lk sentinel)

/-- The same backwards, from `--end()` until the iterator is back at `end()`. -/
def backward (lk : Links α) (sentinel : α) (fuel : ℕ) : Option (List α) :=
  traverse lk.prev (endIt sentinel) fuel (lk.prev (endIt sentinel))

/-! ### One list -/

variable {lk lk' : Links α} {b n x z : α} {xs ys qs : List α}

lemma next_insertBefore (z n x : α) : (insertBefore lk z n).next x =
    if x = lk.prev z then n else if x = n then z else lk.next x := by
  simp only [insertBefore, setNext, setPrev, Function.update_apply]

lemma prev_insertBefore (z n x : α) : (insertBefore lk z n).prev x =
    if x = z then n else if x = n then lk.prev z else lk.prev x := by
  simp only [insertBefore, setNext, setPrev, Function.update_apply]

lemma next_remove (n x : α) : (remove lk n).next x =
    if x = lk.prev n then lk.next n else lk.next x := by
  simp only [remove, setNext, setPrev, Function.update_apply]

lemma prev_remove (n x : α) : (remove lk n).prev x =
    if x = lk.next n then lk.prev n else lk.prev x := by
  simp only [remove, setNext, setPrev, Function.update_apply]

/-- A sentinel just constructed. -/
lemma reset_linked (lk : Links α) (b : α) : (reset lk b).Linked b b := by
  simp [Linked, reset, setNext, setPrev]

omit [DecidableEq α] in
lemma ring_nil (h : lk.Linked b b) : lk.Ring b [] :=
  ⟨List.isChain_cons_cons.mpr ⟨h, List.isChain_singleton _⟩, List.nodup_singleton b⟩

/-- The node at the place behind `xs` gets `n` before it. -/
lemma ring_insertBefore (h : lk.Ring b (xs ++ ys)) (hn : n ∉ b :: (xs ++ ys)) :
    (insertBefore lk (ys.headD b) n).Ring b (xs ++ n :: ys) := by
  have hprev : lk.prev (ys.headD b) = xs.getLastD b := h.linked.2
  have hlast : xs.getLastD b ≠ n := fun he =>
    hn (he ▸ (List.cons_subset_cons b (List.subset_append_left xs ys)) (getLastD_mem xs b))
  have hhead : ys.headD b ≠ n := fun he =>
    hn (he ▸ (List.cons_subset_cons b (List.subset_append_right xs ys)) (headD_mem ys b))
  refine h.link hn ⟨?_, ?_⟩ ⟨?_, ?_⟩ ?_ ?_
  · rw [next_insertBefore, hprev, if_pos rfl]
  · rw [prev_insertBefore, hprev, if_neg hhead.symm, if_pos rfl]
  · rw [next_insertBefore, hprev, if_neg hlast.symm, if_pos rfl]
  · rw [prev_insertBefore, if_pos rfl]
  · intro x hxn hx
    rw [next_insertBefore, hprev, if_neg hx, if_neg hxn]
  · intro x hxn hx
    rw [prev_insertBefore, if_neg hx, if_neg hxn]

lemma ring_remove (h : lk.Ring b (xs ++ n :: ys)) : (remove lk n).Ring b (xs ++ ys) := by
  have hnext := h.next_eq
  have hprev := h.prev_eq
  refine h.unlink ⟨?_, ?_⟩ ?_ ?_
  · rw [next_remove, hprev, if_pos rfl, hnext]
  · rw [prev_remove, hnext, if_pos rfl, hprev]
  · intro x hx
    rw [next_remove, hprev, if_neg hx]
  · intro x hx
    rw [prev_remove, hnext, if_neg hx]

/-- Forwards from the place behind `xs`. -/
lemma traverse_next {fuel : ℕ} (h : lk.Ring b (xs ++ ys)) (hfuel : ys.length ≤ fuel) :
    traverse lk.next b fuel (ys.headD b) = some ys := by
  induction ys generalizing xs fuel with
  | nil => cases fuel <;> simp [traverse]
  | cons y ys ih =>
    obtain ⟨fuel, rfl⟩ : ∃ k, fuel = k + 1 := ⟨fuel - 1, by simp at hfuel; omega⟩
    have hne : y ≠ b := by
      rintro rfl
      exact (List.nodup_cons.mp h.nodup).1 (by simp)
    have h' : lk.Ring b ((xs ++ [y]) ++ ys) := by simpa using h
    have hrest := ih h' (by simpa using hfuel)
    rw [List.headD_cons, traverse, if_neg hne, h.next_eq, hrest]
    rfl

/-- Backwards from the place before `ys`. -/
lemma traverse_prev {fuel : ℕ} (h : lk.Ring b (xs ++ ys)) (hfuel : xs.length ≤ fuel) :
    traverse lk.prev b fuel (xs.getLastD b) = some xs.reverse := by
  induction xs using List.reverseRecOn generalizing ys fuel with
  | nil => cases fuel <;> simp [traverse]
  | append_singleton xs x ih =>
    obtain ⟨fuel, rfl⟩ : ∃ k, fuel = k + 1 := ⟨fuel - 1, by simp at hfuel; omega⟩
    have h' : lk.Ring b (xs ++ x :: ys) := by simpa using h
    have hne : x ≠ b := by
      rintro rfl
      exact (List.nodup_cons.mp h.nodup).1 (by simp)
    have hrest := ih h' (by simpa using hfuel)
    rw [List.getLastD_concat, traverse, if_neg hne, h'.prev_eq, hrest]
    simp

lemma forward_eq {fuel : ℕ} (h : lk.Ring b qs) (hfuel : qs.length ≤ fuel) :
    forward lk b fuel = some qs := by
  rw [forward, beginIt, h.next_base]
  exact traverse_next (show lk.Ring b ([] ++ qs) from h) hfuel

lemma backward_eq {fuel : ℕ} (h : lk.Ring b qs) (hfuel : qs.length ≤ fuel) :
    backward lk b fuel = some qs.reverse := by
  rw [backward, endIt, h.prev_base]
  exact traverse_prev (show lk.Ring b (qs ++ []) by simpa using h) hfuel

/-- What the list shows: its sequence forwards and backwards, over links that are inverse to each
other. -/
structure Shows (lk : Links α) (b : α) (qs : List α) : Prop where
  forward : ∀ fuel, qs.length ≤ fuel → forward lk b fuel = some qs
  backward : ∀ fuel, qs.length ≤ fuel → backward lk b fuel = some qs.reverse
  inverse : ∀ x ∈ b :: qs, lk.next (lk.prev x) = x ∧ lk.prev (lk.next x) = x

lemma shows_of_ring (h : lk.Ring b qs) : Shows lk b qs :=
  ⟨fun _ => forward_eq h, fun _ => backward_eq h, fun _ => h.inverse⟩

/-! ### All lists -/

variable {ι : Type*} [DecidableEq ι] {s : ι → α} {m : ι → List α} {l : ι}

/-- The lists with the sentinels `s` hold the sequences `m`, and no node is in two lists. -/
structure Holds (lk : Links α) (s : ι → α) (m : ι → List α) : Prop where
  ring : ∀ i, lk.Ring (s i) (m i)
  apart : ∀ i j, i ≠ j → List.Disjoint (s i :: m i) (s j :: m j)

omit [DecidableEq α] in
/-- An edit of one list that rewires its own nodes, and a node of no list. -/
lemma Holds.update (h : Holds lk s m) (hring : lk'.Ring (s l) qs)
    (hqs : ∀ x ∈ qs, x ∈ m l ∨ ∀ i, x ∉ s i :: m i)
    (hnext : ∀ x, (∃ i, i ≠ l ∧ x ∈ s i :: m i) → lk'.next x = lk.next x)
    (hprev : ∀ x, (∃ i, i ≠ l ∧ x ∈ s i :: m i) → lk'.prev x = lk.prev x) :
    Holds lk' s (Function.update m l qs) := by
  have hmem : ∀ i x, i ≠ l → x ∈ s l :: qs → x ∉ s i :: m i := by
    intro i x hi hx hxi
    rcases List.mem_cons.mp hx with rfl | hx
    · exact h.apart l i hi.symm List.mem_cons_self hxi
    · rcases hqs x hx with hx | hx
      · exact h.apart l i hi.symm (List.mem_cons_of_mem _ hx) hxi
      · exact hx i hxi
  refine ⟨fun i => ?_, fun i j hij => ?_⟩
  · by_cases hi : i = l
    · rw [hi, Function.update_self]
      exact hring
    · rw [Function.update_of_ne hi]
      exact (h.ring i).congr (fun x hx => hnext x ⟨i, hi, hx⟩) (fun x hx => hprev x ⟨i, hi, hx⟩)
  · by_cases hi : i = l
    · subst hi
      rw [Function.update_self, Function.update_of_ne hij.symm]
      exact fun x hx hxj => hmem j x hij.symm hx hxj
    · rw [Function.update_of_ne hi]
      by_cases hj : j = l
      · subst hj
        rw [Function.update_self]
        exact fun x hxi hx => hmem i x hij hx hxi
      · rw [Function.update_of_ne hj]
        exact h.apart i j hij

lemma Holds.insertBefore (h : Holds lk s m) (hm : m l = xs ++ ys) (hn : ∀ i, n ∉ s i :: m i) :
    Holds (insertBefore lk (ys.headD (s l)) n) s (Function.update m l (xs ++ n :: ys)) := by
  have hring : lk.Ring (s l) (xs ++ ys) := hm ▸ h.ring l
  have hother : ∀ x, (∃ i, i ≠ l ∧ x ∈ s i :: m i) → x ∉ s l :: (xs ++ ys) ∧ x ≠ n := by
    rintro x ⟨i, hi, hx⟩
    exact ⟨fun hl => h.apart i l hi hx (hm ▸ hl), fun he => hn i (he ▸ hx)⟩
  have hhead : ys.headD (s l) ∈ s l :: (xs ++ ys) :=
    (List.cons_subset_cons _ (List.subset_append_right xs ys)) (headD_mem ys _)
  refine h.update (ring_insertBefore hring (hm ▸ hn l)) ?_ ?_ ?_
  · intro x hx
    rw [hm]
    rcases List.mem_append.mp hx with hx | hx
    · exact .inl (List.mem_append_left _ hx)
    · rcases List.mem_cons.mp hx with rfl | hx
      · exact .inr hn
      · exact .inl (List.mem_append_right _ hx)
  · intro x hx
    rw [next_insertBefore, if_neg, if_neg (hother x hx).2]
    exact fun he => (hother x hx).1 (he ▸ hring.prev_mem hhead)
  · intro x hx
    rw [prev_insertBefore, if_neg, if_neg (hother x hx).2]
    exact fun he => (hother x hx).1 (he ▸ hhead)

lemma Holds.remove (h : Holds lk s m) (hm : m l = xs ++ n :: ys) :
    Holds (remove lk n) s (Function.update m l (xs ++ ys)) := by
  have hring : lk.Ring (s l) (xs ++ n :: ys) := hm ▸ h.ring l
  have hother : ∀ x, (∃ i, i ≠ l ∧ x ∈ s i :: m i) → x ∉ s l :: (xs ++ n :: ys) := by
    rintro x ⟨i, hi, hx⟩
    exact fun hl => h.apart i l hi hx (hm ▸ hl)
  have hmem : n ∈ s l :: (xs ++ n :: ys) := by simp
  refine h.update (ring_remove hring) ?_ ?_ ?_
  · intro x hx
    rw [hm]
    exact .inl ((List.sublist_cons_self n ys).append_left xs |>.subset hx)
  · intro x hx
    rw [next_remove, if_neg]
    exact fun he => hother x hx (he ▸ hring.prev_mem hmem)
  · intro x hx
    rw [prev_remove, if_neg]
    exact fun he => hother x hx (he ▸ hring.next_mem hmem)

/-! ### Sequences of operations -/

/-- An operation on the list `l`. -/
inductive Op (ι α : Type*)
  | insert (l : ι) (it n : α)
  | push_back (l : ι) (n : α)
  | remove (l : ι) (n : α)
  | erase (l : ι) (it : α)

/-- The links after an operation; nothing where its assertion fails. -/
def exec (s : ι → α) (lk : Links α) : Op ι α → Option (Links α)
  | .insert _ it n => some (insert lk it n)
  | .push_back l n => some (push_back lk (s l) n)
  | .remove _ n => some (remove lk n)
  | .erase l it => (erase lk (s l) it).map Prod.fst

/-- The operations one after another on the links. -/
def execAll (s : ι → α) (lk : Links α) (ops : List (Op ι α)) : Option (Links α) :=
  ops.foldlM (exec s) lk

/-- A sequence with `n` before `it`, or at its end. -/
def insertSeq (it n : α) : List α → List α
  | [] => [n]
  | x :: xs => if x = it then n :: x :: xs else x :: insertSeq it n xs

/-- What the operations do to the sequences. -/
def Op.apply (m : ι → List α) : Op ι α → ι → List α
  | .insert l it n => Function.update m l (insertSeq it n (m l))
  | .push_back l n => Function.update m l (m l ++ [n])
  | .remove l n => Function.update m l ((m l).erase n)
  | .erase l it => Function.update m l ((m l).erase it)

/-- The iterator is one of the list, and the node comes from no list or from the list it is taken
out of. -/
def Op.Valid (s : ι → α) (m : ι → List α) : Op ι α → Prop
  | .insert l it n => it ∈ s l :: m l ∧ ∀ i, n ∉ s i :: m i
  | .push_back _ n => ∀ i, n ∉ s i :: m i
  | .remove l n => n ∈ m l
  | .erase l it => it ∈ m l

/-- Each operation is allowed where it is made. -/
def ValidAll (s : ι → α) : (ι → List α) → List (Op ι α) → Prop
  | _, [] => True
  | m, op :: ops => op.Valid s m ∧ ValidAll s (op.apply m) ops

/-- The operations one after another on the lists. -/
def applyAll (m : ι → List α) (ops : List (Op ι α)) : ι → List α := ops.foldl Op.apply m

lemma insertSeq_split {it : α} (hit : it ∈ b :: qs) (hb : b ∉ qs) (n : α) :
    ∃ xs ys, qs = xs ++ ys ∧ it = ys.headD b ∧ insertSeq it n qs = xs ++ n :: ys := by
  induction qs with
  | nil => exact ⟨[], [], rfl, List.mem_singleton.mp hit, rfl⟩
  | cons q qs ih =>
    by_cases hq : q = it
    · exact ⟨[], q :: qs, rfl, hq.symm, if_pos hq⟩
    · have hit' : it ∈ b :: qs := by
        simp only [List.mem_cons] at hit ⊢
        exact hit.imp_right fun h => h.resolve_left (Ne.symm hq)
      obtain ⟨xs, ys, rfl, hys, hseq⟩ := ih hit' (fun h => hb (List.mem_cons_of_mem _ h))
      exact ⟨q :: xs, ys, rfl, hys, by rw [insertSeq, if_neg hq, hseq]; rfl⟩

lemma erase_split (hn : n ∈ qs) (hqs : qs.Nodup) :
    ∃ xs ys, qs = xs ++ n :: ys ∧ qs.erase n = xs ++ ys := by
  obtain ⟨xs, ys, rfl⟩ := List.append_of_mem hn
  have hxs : n ∉ xs := fun h => (List.nodup_append.mp hqs).2.2 n h n List.mem_cons_self rfl
  exact ⟨xs, ys, rfl, by rw [List.erase_append_right _ hxs, List.erase_cons_head]⟩

/-- A valid operation keeps its assertion, and does to the links what it does to the sequences. -/
lemma Holds.exec (h : Holds lk s m) {op : Op ι α} (hop : op.Valid s m) :
    ∃ lk', exec s lk op = some lk' ∧ Holds lk' s (op.apply m) := by
  have hnodup : ∀ i, s i ∉ m i ∧ (m i).Nodup := fun i => List.nodup_cons.mp (h.ring i).nodup
  cases op with
  | insert l it n =>
    obtain ⟨xs, ys, hm, rfl, hseq⟩ := insertSeq_split hop.1 (hnodup l).1 n
    refine ⟨_, rfl, ?_⟩
    rw [Op.apply, hseq]
    exact h.insertBefore hm hop.2
  | push_back l n =>
    have hm : m l = m l ++ [] := (List.append_nil _).symm
    exact ⟨_, rfl, h.insertBefore hm hop⟩
  | remove l n =>
    obtain ⟨xs, ys, hm, herase⟩ := erase_split hop (hnodup l).2
    refine ⟨_, rfl, ?_⟩
    rw [Op.apply, herase]
    exact h.remove hm
  | erase l it =>
    obtain ⟨xs, ys, hm, herase⟩ := erase_split hop (hnodup l).2
    have hne : endIt (s l) ≠ it := fun (he : s l = it) => (hnodup l).1 (he ▸ hop)
    refine ⟨IList.remove lk it, by rw [IList.exec, IList.erase, if_neg hne]; rfl, ?_⟩
    rw [Op.apply, herase]
    exact h.remove hm

lemma Holds.execAll (h : Holds lk s m) {ops : List (Op ι α)} (hops : ValidAll s m ops) :
    ∃ lk', execAll s lk ops = some lk' ∧ Holds lk' s (applyAll m ops) := by
  induction ops generalizing lk m with
  | nil => exact ⟨lk, rfl, h⟩
  | cons op ops ih =>
    obtain ⟨lk₁, h₁, hholds⟩ := h.exec hops.1
    obtain ⟨lk', h', hholds'⟩ := ih hholds hops.2
    refine ⟨lk', ?_, hholds'⟩
    rw [IList.execAll, List.foldlM_cons, h₁]
    exact h'

end IList

end Rv32jit
