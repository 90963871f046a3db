/-
# Passes over a list of instructions

A pass walks its block with an iterator and inserts before it, through a builder that stands at
the same node; the folder may put another node in the place of the one just inserted.  New nodes
come from the region's arena, which hands out each node once.
-/
import Rv32jit.Util.IList

namespace Rv32jit

namespace IList

open Links

variable {α : Type*} [DecidableEq α]

/-- `FolderVisitor::Apply` on the node `ins`: `mov` is the node that `visit` creates before it if
it folds.  That one is a `mov`, which `visit` does not fold again. -/
def applyFolder (lk : Links α) (sentinel ins : α) : Option α → Option (Links α × α)
  | none => some (lk, ins)
  | some mov =>
    let lk := insert lk ins mov
    let last_ins := lk.prev ins
    (erase lk sentinel ins).map fun r => (r.1, last_ins)

/-- `Builder::Create` of the node `n`, with the node it returns. -/
def create (lk : Links α) (sentinel it n : α) (mov : Option α) : Option (Links α × α) :=
  applyFolder (insert lk it n) sentinel n mov

/-- The instructions that are created while the pass is at `it`, with the nodes returned. -/
def createAll (sentinel it : α) : Links α → List (α × Option α) → Option (Links α × List α)
  | lk, [] => some (lk, [])
  | lk, (n, mov) :: cs =>
    (create lk sentinel it n mov).bind fun r =>
      (createAll sentinel it r.1 cs).map fun r' => (r'.1, r.2 :: r'.2)

/-- The nodes that the arena hands out for them. -/
def newNodes (cs : List (α × Option α)) : List α := cs.flatMap fun c => c.1 :: c.2.toList

/-- The links, and the nodes handed out so far. -/
structure Heap (α : Type*) where
  links : Links α
  allocated : Finset α

/-- `for (iit = begin(); iit != end(); ++iit)` from `it` on, where at each node `body` says what is
created.  The trace has the nodes visited, each with the nodes that its creations returned. -/
def walk (sentinel : α) (body : Heap α → α → List (α × Option α)) :
    ℕ → α → Heap α → Option (List (α × List α) × Heap α)
  | 0, it, h => if it = endIt sentinel then some ([], h) else none
  | fuel + 1, it, h =>
    if it = endIt sentinel then some ([], h)
    else
      (createAll sentinel it h.links (body h it)).bind fun r =>
        let h' : Heap α := ⟨r.1, h.allocated ∪ (newNodes (body h it)).toFinset⟩
        (walk sentinel body fuel (r.1.next it) h').map fun r' => ((it, r.2) :: r'.1, r'.2)

/-- The sequence that a trace leaves behind. -/
def edited (trace : List (α × List α)) : List α := trace.flatMap fun v => v.2 ++ [v.1]

/-- The body gets its nodes from the arena. -/
def FromArena (body : Heap α → α → List (α × Option α)) : Prop :=
  ∀ h it, (newNodes (body h it)).Nodup ∧ ∀ x ∈ newNodes (body h it), x ∉ h.allocated

/-! ### Creating an instruction -/

variable {ι : Type*} [DecidableEq ι] {lk : Links α} {s : ι → α} {m : ι → List α} {l : ι}
  {xs ys : List α} {n it : α} {mov : Option α} {cs : List (α × Option α)}

/-- Whether folded or not, the list gains the one node that is returned. -/
lemma Holds.create (h : Holds lk s m) (hm : m l = xs ++ ys) (hit : it = ys.headD (s l))
    (hn : ∀ i, n ∉ s i :: m i) (hmov : ∀ x ∈ mov, x ≠ n ∧ ∀ i, x ∉ s i :: m i) :
    ∃ lk', create lk (s l) it n mov = some (lk', mov.getD n) ∧
      Holds lk' s (Function.update m l (xs ++ mov.getD n :: ys)) := by
  subst hit
  have h₁ := h.insertBefore hm hn
  cases mov with
  | none => exact ⟨_, rfl, h₁⟩
  | some x =>
    obtain ⟨hxn, hx⟩ := hmov x rfl
    have hx₁ : ∀ i, x ∉ s i :: Function.update m l (xs ++ n :: ys) i := by
      intro i
      by_cases hi : i = l
      · subst hi
        have := hx i
        rw [hm] at this
        rw [Function.update_self]
        simp only [List.mem_cons, List.mem_append] at this ⊢
        tauto
      · rw [Function.update_of_ne hi]
        exact hx i
    have hm₁ : Function.update m l (xs ++ n :: ys) l = xs ++ n :: ys := Function.update_self ..
    have h₂ := h₁.insertBefore hm₁ hx₁
    rw [Function.update_idem] at h₂
    have hm₂ : Function.update m l (xs ++ x :: n :: ys) l = (xs ++ [x]) ++ n :: ys := by simp
    have h₃ := h₂.remove hm₂
    rw [Function.update_idem, List.append_assoc] at h₃
    have hlast : (IList.insert (IList.insert lk (ys.headD (s l)) n) n x).prev n = x := by
      have hring : (IList.insertBefore (IList.insertBefore lk (ys.headD (s l)) n) n x).Ring (s l)
          ((xs ++ [x]) ++ n :: ys) := by simpa using h₂.ring l
      rw [IList.insert, IList.insert, hring.prev_eq, List.getLastD_concat]
    have hne : endIt (s l) ≠ n := fun (he : s l = n) => hn l (he ▸ List.mem_cons_self)
    refine ⟨_, ?_, h₃⟩
    rw [IList.create, applyFolder, erase, if_neg hne]
    simp only [Option.map_some, hlast, Option.getD_some]
    rfl

omit [DecidableEq α] in
lemma mem_update {x : α} {i : ι} {qs : List α} (hx : x ∉ s i :: m i) (hqs : x ∉ qs) :
    x ∉ s i :: Function.update m l qs i := by
  by_cases hi : i = l
  · subst hi
    rw [Function.update_self]
    exact fun h => (List.mem_cons.mp h).elim (fun h => hx (h ▸ List.mem_cons_self)) hqs
  · rwa [Function.update_of_ne hi]

/-- What is created while a pass is at a node stands before it, in the order of the creations. -/
lemma Holds.createAll (h : Holds lk s m) (hm : m l = xs ++ ys) (hit : it = ys.headD (s l))
    (hnodup : (newNodes cs).Nodup) (hnew : ∀ x ∈ newNodes cs, ∀ i, x ∉ s i :: m i) :
    ∃ lk' rs, createAll (s l) it lk cs = some (lk', rs) ∧ rs ⊆ newNodes cs ∧
      Holds lk' s (Function.update m l (xs ++ rs ++ ys)) := by
  induction cs generalizing lk m xs with
  | nil =>
    refine ⟨lk, [], rfl, List.nil_subset _, ?_⟩
    rwa [List.append_nil, ← hm, Function.update_eq_self]
  | cons c cs ih =>
    obtain ⟨n, mov⟩ := c
    have hcons : newNodes ((n, mov) :: cs) = n :: (mov.toList ++ newNodes cs) := rfl
    rw [hcons] at hnodup hnew
    obtain ⟨hnotin, hnodup⟩ := List.nodup_cons.mp hnodup
    obtain ⟨-, hcs, hdisj⟩ := List.nodup_append.mp hnodup
    have hmov : ∀ x ∈ mov, x ≠ n ∧ ∀ i, x ∉ s i :: m i := by
      rintro x hx
      have hx' : x ∈ mov.toList := Option.mem_toList.mpr hx
      exact ⟨fun he => hnotin (he ▸ List.mem_append_left _ hx'),
        hnew x (List.mem_cons_of_mem _ (List.mem_append_left _ hx'))⟩
    have hret : mov.getD n ∈ n :: mov.toList := by cases mov <;> simp
    obtain ⟨lk₁, hcreate, h₁⟩ := h.create hm hit (hnew n List.mem_cons_self) hmov
    -- the nodes still to come are not in the list yet
    have hlater : ∀ x ∈ newNodes cs, ∀ i,
        x ∉ s i :: Function.update m l (xs ++ mov.getD n :: ys) i := by
      intro x hx i
      refine mem_update (hnew x (List.mem_cons_of_mem _ (List.mem_append_right _ hx)) i) ?_
      have hxl := hnew x (List.mem_cons_of_mem _ (List.mem_append_right _ hx)) l
      rw [hm] at hxl
      simp only [List.mem_cons, List.mem_append, not_or] at hxl ⊢
      refine ⟨hxl.2.1, fun he => ?_, hxl.2.2⟩
      rcases List.mem_cons.mp hret with hr | hr
      · exact hnotin (hr ▸ he ▸ List.mem_append_right _ hx)
      · exact hdisj _ hr _ hx he.symm
    have hm₁ : Function.update m l (xs ++ mov.getD n :: ys) l = (xs ++ [mov.getD n]) ++ ys := by
      simp
    obtain ⟨lk', rs, hall, hsub, h'⟩ := ih h₁ hm₁ hcs hlater
    refine ⟨lk', mov.getD n :: rs, ?_, ?_, ?_⟩
    · rw [IList.createAll, hcreate, Option.bind_some, hall]
      rfl
    · rw [hcons, ← List.cons_append]
      exact List.cons_subset.mpr ⟨List.mem_append_left _ hret,
        fun x hx => List.mem_append_right _ (hsub hx)⟩
    · rw [Function.update_idem] at h'
      simpa using h'

/-! ### Walking -/

/-- From the place behind `xs` a pass visits the nodes that were there when it came, each once and
in their order, whatever it creates. -/
lemma walk_spec {body : Heap α → α → List (α × Option α)} (hbody : FromArena body) {h : Heap α}
    {fuel : ℕ} (hholds : Holds h.links s m) (hm : m l = xs ++ ys) (hit : it = ys.headD (s l))
    (halloc : ∀ i, ∀ x ∈ s i :: m i, x ∈ h.allocated) (hfuel : ys.length ≤ fuel) :
    ∃ trace h', walk (s l) body fuel it h = some (trace, h') ∧ trace.map Prod.fst = ys ∧
      (∀ v ∈ trace, ∀ x ∈ v.2, x ∉ h.allocated) ∧
      Holds h'.links s (Function.update m l (xs ++ edited trace)) := by
  induction ys generalizing xs h m fuel it with
  | nil =>
    refine ⟨[], h, ?_, rfl, by simp, ?_⟩
    · subst hit
      cases fuel <;> simp [walk, endIt]
    · rw [edited, List.flatMap_nil, ← hm, Function.update_eq_self]
      exact hholds
  | cons y ys ih =>
    obtain ⟨fuel, rfl⟩ : ∃ k, fuel = k + 1 := ⟨fuel - 1, by simp at hfuel; omega⟩
    rw [List.headD_cons] at hit
    subst hit
    obtain ⟨hnodup, hnew⟩ := hbody h it
    have hit : it = (it :: ys).headD (s l) := rfl
    obtain ⟨lk₁, rs, hcreate, hsub, h₁⟩ := hholds.createAll hm hit hnodup
      (fun x hx i hxi => hnew x hx (halloc i x hxi))
    have hm₁ : Function.update m l (xs ++ rs ++ it :: ys) l = (xs ++ rs ++ [it]) ++ ys := by
      rw [Function.update_self]
      simp
    have hnext : lk₁.next it = ys.headD (s l) := by
      have hring := h₁.ring l
      rw [Function.update_self] at hring
      exact hring.next_eq
    have halloc₁ : ∀ i, ∀ x ∈ s i :: Function.update m l (xs ++ rs ++ it :: ys) i,
        x ∈ h.allocated ∪ (newNodes (body h it)).toFinset := by
      intro i x hx
      by_contra hnot
      simp only [Finset.mem_union, List.mem_toFinset, not_or] at hnot
      refine mem_update (fun hxi => hnot.1 (halloc i x hxi)) (fun hxl => ?_) hx
      simp only [List.mem_append] at hxl
      rcases hxl with (hxl | hxl) | hxl
      · exact hnot.1 (halloc l x (by rw [hm]; simp [hxl]))
      · exact hnot.2 (hsub hxl)
      · exact hnot.1 (halloc l x (hm ▸ List.mem_cons_of_mem _ (List.mem_append_right _ hxl)))
    obtain ⟨trace, h', hwalk, hfst, hfresh, hh'⟩ := ih
      (h := ⟨lk₁, h.allocated ∪ (newNodes (body h it)).toFinset⟩) h₁ hm₁ hnext halloc₁
      (by simpa using hfuel)
    have hne : it ≠ endIt (s l) := by
      intro (he : it = s l)
      have hring := hholds.ring l
      rw [hm] at hring
      exact (List.nodup_cons.mp hring.nodup).1 (he ▸ by simp)
    refine ⟨(it, rs) :: trace, h', ?_, ?_, ?_, ?_⟩
    · rw [walk, if_neg hne, hcreate, Option.bind_some]
      dsimp only
      rw [hwalk, Option.map_some]
    · rw [List.map_cons, hfst]
    · intro v hv x hx
      rcases List.mem_cons.mp hv with rfl | hv
      · exact hnew x (hsub hx)
      · exact fun hxa => hfresh v hv x hx (Finset.mem_union_left _ hxa)
    · rw [Function.update_idem] at hh'
      simpa [edited] using hh'

/-- The nodes of every list have been handed out. -/
def Owned (s : ι → α) (m : ι → List α) (allocated : Finset α) : Prop :=
  ∀ i, ∀ x ∈ s i :: m i, x ∈ allocated

/-- A pass over a list that shows `qs`: it visits these, each once and in order, and no node of its
own; afterwards the list shows them in that order, each behind what was created at it. -/
def WalksOnce (lk : Links α) (sentinel : α) (qs : List α) (allocated : Finset α)
    (body : Heap α → α → List (α × Option α)) : Prop :=
  ∃ trace h',
    walk sentinel body qs.length (beginIt lk sentinel) ⟨lk, allocated⟩ = some (trace, h') ∧
    trace.map Prod.fst = qs ∧ qs.Nodup ∧ (∀ v ∈ trace, ∀ x ∈ v.2, x ∉ qs) ∧
    Shows h'.links sentinel (edited trace)

lemma Holds.walksOnce (h : Holds lk s m) (l : ι) {allocated : Finset α}
    (hown : Owned s m allocated) {body : Heap α → α → List (α × Option α)}
    (hbody : FromArena body) : WalksOnce lk (s l) (m l) allocated body := by
  have hring := h.ring l
  obtain ⟨trace, h', hwalk, hfst, hfresh, hh'⟩ :=
    walk_spec hbody (h := ⟨lk, allocated⟩) h (List.nil_append _).symm rfl hown le_rfl
  refine ⟨trace, h', ?_, hfst, (List.nodup_cons.mp hring.nodup).2, ?_, ?_⟩
  · rw [beginIt, hring.next_base]
    exact hwalk
  · exact fun v hv x hx hxl => hfresh v hv x hx (hown l x (List.mem_cons_of_mem _ hxl))
  · have hl := hh'.ring l
    rw [Function.update_self, List.nil_append] at hl
    exact shows_of_ring hl

/-- After any sequence of operations on freshly constructed lists, no assertion has failed, every
list shows its sequence, and every pass over it walks it once. -/
theorem execAll_shows (s : ι → α) (hs : Function.Injective s) (lk₀ : Links α)
    (hreset : ∀ i, lk₀.Linked (s i) (s i)) (ops : List (Op ι α))
    (hops : ValidAll s (fun _ => []) ops) (l : ι) (allocated : Finset α)
    (hown : Owned s (applyAll (fun _ => []) ops) allocated)
    (body : Heap α → α → List (α × Option α)) (hbody : FromArena body) :
    ∃ lk, execAll s lk₀ ops = some lk ∧ Shows lk (s l) (applyAll (fun _ => []) ops l) ∧
      WalksOnce lk (s l) (applyAll (fun _ => []) ops l) allocated body := by
  have hinit : Holds lk₀ s (fun _ => []) := by
    refine ⟨fun i => ring_nil (hreset i), fun i j hij x hi hj => hij (hs ?_)⟩
    rw [List.mem_singleton] at hi hj
    rw [← hi, ← hj]
  obtain ⟨lk, hexec, hholds⟩ := hinit.execAll hops
  exact ⟨lk, hexec, shows_of_ring (hholds.ring l), hholds.walksOnce l hown hbody⟩

/-- A list of two nodes, and a pass that creates an instruction before each, folded at the
first. -/
theorem execAll_shows_pass :
    ∃ lk, execAll (fun _ : Unit => 0) (reset ⟨id, id⟩ 0) [.push_back () 1, .insert () 1 2] =
        some lk ∧
      Shows lk 0 [2, 1] ∧
      WalksOnce lk 0 [2, 1] {0, 1, 2} fun h it =>
        let fresh := h.allocated.sup id
        if it = 2 then [(fresh + 1, some (fresh + 2))] else [(fresh + 1, none)] := by
  refine execAll_shows (fun _ : Unit => 0) (fun _ _ _ => rfl) (reset ⟨id, id⟩ 0)
    (fun _ => reset_linked _ _) [.push_back () 1, .insert () 1 2] ?_ () {0, 1, 2} ?_ _ ?_
  · simp [ValidAll, Op.Valid, Op.apply]
  · intro _ x hx
    simpa [applyAll, Op.apply, insertSeq, or_comm, or_left_comm] using hx
  · intro h it
    have hlt : ∀ x ∈ h.allocated, x ≤ h.allocated.sup id := fun x hx => Finset.le_sup (f := id) hx
    dsimp only
    split
    · refine ⟨by simp [newNodes], fun x hx hmem => ?_⟩
      have := hlt x hmem
      simp only [newNodes, List.flatMap_cons, Option.toList_some, List.flatMap_nil,
        List.append_nil, List.mem_cons, List.not_mem_nil, or_false] at hx
      omega
    · refine ⟨by simp [newNodes], fun x hx hmem => ?_⟩
      have := hlt x hmem
      simp only [newNodes, List.flatMap_cons, Option.toList_none, List.flatMap_nil,
        List.append_nil, List.mem_singleton] at hx
      omega

end IList

end Rv32jit
