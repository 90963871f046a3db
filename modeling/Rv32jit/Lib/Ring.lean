/-
# Circular doubly-linked lists

Nodes with a next and a previous node each, over any type of nodes.  A ring is a list of nodes
closed by a base node; every edit of it is one node linked in between two neighbours or taken
out from there.
-/
import Mathlib.Tactic
import Mathlib.Data.List.Chain

namespace Rv32jit

/-- The links of all nodes. -/
structure Links (α : Type*) where
  prev : α → α
  next : α → α

namespace Links

variable {α : Type*}

/-- The two nodes are linked to each other. -/
def Linked (lk : Links α) (x y : α) : Prop := lk.next x = y ∧ lk.prev y = x

/-- The nodes `qs` follow one another, with the base `b` before and behind them. -/
structure Ring (lk : Links α) (b : α) (qs : List α) : Prop where
  chain : List.IsChain lk.Linked (b :: (qs ++ [b]))
  nodup : (b :: qs).Nodup

variable {lk lk' : Links α} {b n x y z : α} {xs ys qs : List α}

/-- A chain looks at the next node of all its nodes but the last, and at the previous node of all
but the first. -/
lemma isChain_congr {l : List α} (h : List.IsChain lk.Linked l)
    (hnext : ∀ x ∈ l.dropLast, lk'.next x = lk.next x)
    (hprev : ∀ x ∈ l.tail, lk'.prev x = lk.prev x) : List.IsChain lk'.Linked l := by
  induction l with
  | nil => exact List.isChain_nil
  | cons x l ih =>
    cases l with
    | nil => exact List.isChain_singleton _
    | cons y l =>
      obtain ⟨hxy, hl⟩ := List.isChain_cons_cons.mp h
      refine List.isChain_cons_cons.mpr ⟨⟨?_, ?_⟩, ih hl ?_ ?_⟩
      · rw [hnext x (by simp), hxy.1]
      · rw [hprev y (by simp), hxy.2]
      · exact fun w hw => hnext w (by simp [hw])
      · exact fun w hw => hprev w (by simp [List.mem_of_mem_tail hw])

/-! ### The neighbours in a ring -/

/-- What stands before a place in the ring, and what stands there. -/
lemma ring_split (b : α) (xs ys : List α) : ∃ pre post,
    b :: xs = pre ++ [xs.getLastD b] ∧ ys ++ [b] = ys.headD b :: post := by
  refine ⟨(b :: xs).dropLast, (ys ++ [b]).tail, ?_, ?_⟩
  · induction xs using List.reverseRecOn with
    | nil => rfl
    | append_singleton xs x =>
      rw [List.getLastD_concat, ← List.cons_append, List.dropLast_concat]
  · cases ys <;> rfl

lemma linked_split (h : List.IsChain lk.Linked (b :: (xs ++ ys ++ [b]))) :
    lk.Linked (xs.getLastD b) (ys.headD b) := by
  obtain ⟨pre, post, hpre, hpost⟩ := ring_split b xs ys
  have hsplit : b :: (xs ++ ys ++ [b]) = pre ++ xs.getLastD b :: ys.headD b :: post := by
    rw [List.append_assoc, ← List.cons_append, hpre, hpost]
    simp
  rw [hsplit] at h
  exact (List.isChain_append_cons_cons.mp h).2.1

/-- Across any place of the ring its two neighbours are linked. -/
lemma Ring.linked (h : Ring lk b (xs ++ ys)) : lk.Linked (xs.getLastD b) (ys.headD b) :=
  linked_split h.chain

lemma Ring.next_eq (h : Ring lk b (xs ++ x :: ys)) : lk.next x = ys.headD b := by
  have hl := (show Ring lk b ((xs ++ [x]) ++ ys) by simpa using h).linked.1
  simpa using hl

lemma Ring.prev_eq (h : Ring lk b (xs ++ x :: ys)) : lk.prev x = xs.getLastD b := by
  simpa using h.linked.2

lemma Ring.next_base (h : Ring lk b qs) : lk.next b = qs.headD b :=
  (show Ring lk b ([] ++ qs) from h).linked.1

lemma Ring.prev_base (h : Ring lk b qs) : lk.prev b = qs.getLastD b :=
  (show Ring lk b (qs ++ []) by simpa using h).linked.2

lemma Ring.next_mem (h : Ring lk b qs) (hx : x ∈ b :: qs) : lk.next x ∈ b :: qs := by
  rcases List.mem_cons.mp hx with rfl | hx
  · rw [h.next_base]
    cases qs <;> simp
  · obtain ⟨xs, ys, rfl⟩ := List.append_of_mem hx
    rw [h.next_eq]
    cases ys <;> simp

lemma getLastD_mem (qs : List α) (b : α) : qs.getLastD b ∈ b :: qs := by
  obtain ⟨pre, _, hpre, -⟩ := ring_split b qs []
  rw [hpre]
  exact List.mem_append_right _ List.mem_cons_self

lemma headD_mem (qs : List α) (b : α) : qs.headD b ∈ b :: qs := by cases qs <;> simp

lemma Ring.prev_mem (h : Ring lk b qs) (hx : x ∈ b :: qs) : lk.prev x ∈ b :: qs := by
  rcases List.mem_cons.mp hx with rfl | hx
  · rw [h.prev_base]
    exact getLastD_mem _ _
  · obtain ⟨xs, ys, rfl⟩ := List.append_of_mem hx
    rw [h.prev_eq]
    exact (List.cons_subset_cons b (List.subset_append_left xs _)) (getLastD_mem xs b)

/-- The two links of a node are inverse to each other. -/
lemma Ring.inverse (h : Ring lk b qs) (hx : x ∈ b :: qs) :
    lk.next (lk.prev x) = x ∧ lk.prev (lk.next x) = x := by
  rcases List.mem_cons.mp hx with rfl | hx
  · have h1 : lk.Linked x (qs.headD x) := (show Ring lk x ([] ++ qs) from h).linked
    have h2 : lk.Linked (qs.getLastD x) x := (show Ring lk x (qs ++ []) by simpa using h).linked
    exact ⟨by rw [h2.2]; exact h2.1, by rw [h1.1]; exact h1.2⟩
  · obtain ⟨xs, ys, rfl⟩ := List.append_of_mem hx
    have h1 := h.linked
    have h2 := (show Ring lk b ((xs ++ [x]) ++ ys) by simpa using h).linked
    rw [List.headD_cons] at h1
    rw [List.getLastD_concat] at h2
    exact ⟨by rw [h1.2]; exact h1.1, by rw [h2.1]; exact h2.2⟩

/-! ### Edits -/

/-- A ring looks at its own nodes only. -/
lemma Ring.congr (h : Ring lk b qs) (hnext : ∀ x ∈ b :: qs, lk'.next x = lk.next x)
    (hprev : ∀ x ∈ b :: qs, lk'.prev x = lk.prev x) : Ring lk' b qs := by
  refine ⟨isChain_congr h.chain (fun x hx => hnext x ?_) (fun x hx => hprev x ?_), h.nodup⟩
  · simpa [List.dropLast_cons_of_ne_nil] using hx
  · rcases List.mem_append.mp (show x ∈ qs ++ [b] from hx) with hx | hx
    · exact List.mem_cons_of_mem _ hx
    · exact List.mem_singleton.mp hx ▸ List.mem_cons_self

/-- The two halves of a ring stay chains if only the links at the seam change: `next` of the
node before it, `prev` of the node behind it, and whatever a node outside has. -/
lemma chain_halves {pre post : List α} (hleft : List.IsChain lk.Linked (b :: xs))
    (hright : List.IsChain lk.Linked (ys ++ [b])) (hnodup : (b :: (xs ++ ys)).Nodup)
    (hpre : b :: xs = pre ++ [xs.getLastD b])
    (hpost : ys ++ [b] = ys.headD b :: post)
    (hnext : ∀ x ∈ b :: (xs ++ ys), x ≠ xs.getLastD b → lk'.next x = lk.next x)
    (hprev : ∀ x ∈ b :: (xs ++ ys), x ≠ ys.headD b → lk'.prev x = lk.prev x) :
    List.IsChain lk'.Linked (pre ++ [xs.getLastD b]) ∧
      List.IsChain lk'.Linked (ys.headD b :: post) := by
  have hdrop : (pre ++ [xs.getLastD b] ++ ys).Nodup := by rwa [← hpre]
  have htail : (xs ++ ys.headD b :: post).Nodup := by
    rw [← hpost, ← List.append_assoc]
    exact (List.perm_append_singleton b (xs ++ ys)).nodup_iff.mpr hnodup
  rw [← hpre, ← hpost]
  constructor
  · refine isChain_congr hleft (fun x hx => hnext x ?_ ?_) (fun x hx => hprev x ?_ ?_)
    · exact List.mem_append_left ys (List.mem_of_mem_dropLast hx)
    · rw [hpre, List.dropLast_concat] at hx
      rintro rfl
      simp only [List.nodup_append, List.mem_singleton] at hdrop
      exact hdrop.1.2.2 _ hx _ rfl rfl
    · exact List.mem_cons_of_mem _ (List.mem_append_left ys hx)
    · rintro rfl
      exact (List.nodup_append.mp htail).2.2 _ hx _ List.mem_cons_self rfl
  · refine isChain_congr hright (fun x hx => hnext x ?_ ?_) (fun x hx => hprev x ?_ ?_)
    · rw [List.dropLast_concat] at hx
      exact List.mem_cons_of_mem _ (List.mem_append_right xs hx)
    · rw [List.dropLast_concat] at hx
      rintro rfl
      exact (List.nodup_append.mp hdrop).2.2 _ (List.mem_append_right _ List.mem_cons_self) _ hx rfl
    · rcases List.mem_append.mp (List.mem_of_mem_tail hx) with hx | hx
      · exact List.mem_cons_of_mem _ (List.mem_append_right xs hx)
      · exact List.mem_singleton.mp hx ▸ List.mem_cons_self
    · rw [hpost, List.tail_cons] at hx
      rintro rfl
      exact (List.nodup_cons.mp (List.nodup_append.mp htail).2.1).1 hx

/-- A node linked in between two neighbours. -/
lemma Ring.link (h : Ring lk b (xs ++ ys)) (hn : n ∉ b :: (xs ++ ys))
    (hbefore : lk'.Linked (xs.getLastD b) n) (hbehind : lk'.Linked n (ys.headD b))
    (hnext : ∀ x, x ≠ n → x ≠ xs.getLastD b → lk'.next x = lk.next x)
    (hprev : ∀ x, x ≠ n → x ≠ ys.headD b → lk'.prev x = lk.prev x) :
    Ring lk' b (xs ++ n :: ys) := by
  obtain ⟨pre, post, hpre, hpost⟩ := ring_split b xs ys
  have hne : ∀ x ∈ b :: (xs ++ ys), x ≠ n := fun x hx he => hn (he ▸ hx)
  have hxs : List.IsChain lk.Linked (b :: xs) := h.chain.infix ⟨[], ys ++ [b], by simp⟩
  have hys : List.IsChain lk.Linked (ys ++ [b]) := h.chain.infix ⟨b :: xs, [], by simp⟩
  obtain ⟨hleft, hright⟩ := chain_halves hxs hys h.nodup hpre hpost
    (fun x hx => hnext x (hne x hx)) (fun x hx => hprev x (hne x hx))
  refine ⟨?_, ?_⟩
  · have hsplit : b :: (xs ++ n :: ys ++ [b]) =
        pre ++ xs.getLastD b :: n :: ys.headD b :: post := by
      rw [List.append_assoc, List.cons_append, ← List.cons_append, hpre, hpost]
      simp
    rw [hsplit, List.isChain_append_cons_cons]
    exact ⟨hleft, hbefore, List.isChain_cons_cons.mpr ⟨hbehind, hright⟩⟩
  · have hperm : (b :: (xs ++ n :: ys)).Perm (n :: b :: (xs ++ ys)) :=
      (List.Perm.cons b List.perm_middle).trans (List.Perm.swap n b _)
    exact hperm.nodup_iff.mpr (List.nodup_cons.mpr ⟨hn, h.nodup⟩)

/-- A node taken out from between its neighbours. -/
lemma Ring.unlink (h : Ring lk b (xs ++ n :: ys))
    (hlink : lk'.Linked (xs.getLastD b) (ys.headD b))
    (hnext : ∀ x, x ≠ xs.getLastD b → lk'.next x = lk.next x)
    (hprev : ∀ x, x ≠ ys.headD b → lk'.prev x = lk.prev x) : Ring lk' b (xs ++ ys) := by
  obtain ⟨pre, post, hpre, hpost⟩ := ring_split b xs ys
  have hxs : List.IsChain lk.Linked (b :: xs) := h.chain.infix ⟨[], n :: ys ++ [b], by simp⟩
  have hys : List.IsChain lk.Linked (ys ++ [b]) := h.chain.infix ⟨b :: xs ++ [n], [], by simp⟩
  have hnodup : (b :: (xs ++ ys)).Nodup :=
    h.nodup.sublist (((List.sublist_cons_self n ys).append_left xs).cons_cons b)
  obtain ⟨hleft, hright⟩ := chain_halves hxs hys hnodup hpre hpost
    (fun x _ => hnext x) (fun x _ => hprev x)
  refine ⟨?_, hnodup⟩
  have hsplit : b :: (xs ++ ys ++ [b]) = pre ++ xs.getLastD b :: ys.headD b :: post := by
    rw [List.append_assoc, ← List.cons_append, hpre, hpost]
    simp
  rw [hsplit, List.isChain_append_cons_cons]
  exact ⟨hleft, hlink, hright⟩

end Links

end Rv32jit
