import Mathlib.Data.List.Basic
import Mathlib.Data.List.Nodup
import Mathlib.Data.List.Sort
import Mathlib.Data.List.Perm.Basic
import Mathlib.Data.List.Range

/-!
# Forests given by parents

Nodes are numbered in the order in which they were added, and `par` gives the parent of each. The
children of a node stand in that order too (`kids`), and so do the siblings around a node (`before`,
`after`).

* `kids_succ`: one more node is the last child of its parent.
* `after_of_split`: the next sibling.
* `Walk`: a breadth-first walk, as what is done and what is queued. A walk of a tree that has come to
  its end has met every node once (`Walk.perm`).
-/

namespace Forest

variable {par par' : ℕ → Option ℕ} {n p j : ℕ}

/-- The children of `p` among the first `n` nodes. -/
def kids (par : ℕ → Option ℕ) (n p : ℕ) : List ℕ := (List.range n).filter fun j => par j = some p

/-- The siblings before `j`. -/
def before (par : ℕ → Option ℕ) (n j : ℕ) : List ℕ :=
  (par j).elim [] fun p => (kids par n p).filter (· < j)

/-- The siblings after `j`. -/
def after (par : ℕ → Option ℕ) (n j : ℕ) : List ℕ :=
  (par j).elim [] fun p => (kids par n p).filter (j < ·)

theorem mem_kids : j ∈ kids par n p ↔ j < n ∧ par j = some p := by
  simp [kids]

theorem kids_sorted (par : ℕ → Option ℕ) (n p : ℕ) : (kids par n p).Pairwise (· < ·) :=
  List.pairwise_lt_range.filter _

theorem kids_nodup (par : ℕ → Option ℕ) (n p : ℕ) : (kids par n p).Nodup :=
  (kids_sorted par n p).imp fun h => h.ne

theorem kids_congr (h : ∀ j < n, par j = par' j) (p : ℕ) : kids par n p = kids par' n p := by
  refine List.filter_congr fun j hj => ?_
  rw [h j (List.mem_range.mp hj)]

theorem kids_succ (par : ℕ → Option ℕ) (n p : ℕ) :
    kids par (n + 1) p = kids par n p ++ if par n = some p then [n] else [] := by
  unfold kids
  rw [List.range_succ, List.filter_append]
  congr 1
  by_cases h : par n = some p <;> simp [h]

/-- Two children of one node are siblings: the list is cut at the node. -/
theorem after_of_split {pre post : List ℕ} (hj : par j = some p) (h : kids par n p = pre ++ j :: post) :
    after par n j = post := by
  have hsort := kids_sorted par n p
  rw [h, List.pairwise_append, List.pairwise_cons] at hsort
  obtain ⟨-, ⟨hpost, -⟩, hpre⟩ := hsort
  have hno : pre.filter (j < ·) = [] := by
    refine List.filter_eq_nil_iff.mpr fun i hi => ?_
    have hlt := hpre i hi j List.mem_cons_self
    simp
    omega
  have hall : post.filter (j < ·) = post := List.filter_eq_self.mpr fun i hi => by simpa using hpost i hi
  rw [after, hj, Option.elim_some, h, List.filter_append, hno, List.filter_cons_of_neg (by simp), hall,
    List.nil_append]

/-! ### Trees -/

/-- The first node is the root, and every other one has a parent that was there before. -/
structure IsTree (par : ℕ → Option ℕ) (n : ℕ) : Prop where
  pos : 0 < n
  root : par 0 = none
  parent : ∀ j, 0 < j → j < n → ∃ p < j, par j = some p

theorem IsTree.lt (h : IsTree par n) {j p : ℕ} (hj : j < n) (hp : par j = some p) : p < j := by
  rcases Nat.eq_zero_or_pos j with rfl | hpos
  · rw [h.root] at hp
    cases hp
  · obtain ⟨q, hlt, hq⟩ := h.parent j hpos hj
    rw [hq] at hp
    cases hp
    exact hlt

/-! ### Walks -/

/-- A breadth-first walk. A node is met when its parent is done. -/
structure Walk (par : ℕ → Option ℕ) (n : ℕ) (done queue : List ℕ) : Prop where
  nodup : (done ++ queue).Nodup
  lt : ∀ j ∈ done ++ queue, j < n
  root : 0 ∈ done ++ queue
  met : ∀ j p, j < n → par j = some p → (j ∈ done ++ queue ↔ p ∈ done)

theorem Walk.init (h : IsTree par n) : Walk par n [] [0] where
  nodup := by simp
  lt := by simpa using h.pos
  root := by simp
  met := by
    intro j p hj hp
    refine iff_of_false ?_ (by simp)
    intro hmem
    obtain rfl : j = 0 := by simpa using hmem
    rw [h.root] at hp
    cases hp

/-- The children of the node at the head of the queue have not been met. -/
theorem Walk.kids_new {done queue : List ℕ} {x : ℕ} (h : Walk par n done (x :: queue)) (hj : j ∈ kids par n x) :
    j ∉ done ++ x :: queue := by
  intro hmem
  obtain ⟨hjn, hpj⟩ := mem_kids.mp hj
  have hx : x ∈ done := (h.met j x hjn hpj).mp hmem
  have hdisj := (List.nodup_append.mp h.nodup).2.2
  exact hdisj x hx x List.mem_cons_self rfl

/-- **One step of the walk.** -/
theorem Walk.step {done queue : List ℕ} {x : ℕ} (h : Walk par n done (x :: queue)) :
    Walk par n (done ++ [x]) (queue ++ kids par n x) := by
  have hassoc : done ++ [x] ++ (queue ++ kids par n x) = (done ++ x :: queue) ++ kids par n x := by
    simp
  constructor
  · rw [hassoc, List.nodup_append]
    refine ⟨h.nodup, kids_nodup par n x, ?_⟩
    rintro i hi j hj rfl
    exact h.kids_new hj hi
  · rw [hassoc]
    intro j hj
    rcases List.mem_append.mp hj with hj | hj
    · exact h.lt j hj
    · exact (mem_kids.mp hj).1
  · rw [hassoc]
    exact List.mem_append_left _ h.root
  · intro j p hj hp
    rw [hassoc, List.mem_append, h.met j p hj hp, mem_kids, List.mem_append, List.mem_singleton, hp,
      Option.some.injEq]
    exact or_congr_right (and_iff_right hj)

theorem Walk.length_le {done queue : List ℕ} (h : Walk par n done queue) :
    (done ++ queue).length ≤ n := by
  have hsub : (done ++ queue) ⊆ List.range n := fun j hj => List.mem_range.mpr (h.lt j hj)
  have hle := (List.subperm_of_subset h.nodup hsub).length_le
  rwa [List.length_range] at hle

/-- **A walk that is at its end has met every node once.** -/
theorem Walk.perm {done : List ℕ} (h : Walk par n done []) (ht : IsTree par n) :
    done.Perm (List.range n) := by
  have hnodup : done.Nodup := by simpa using h.nodup
  refine (List.perm_ext_iff_of_nodup hnodup List.nodup_range).mpr fun j => ?_
  rw [List.mem_range]
  constructor
  · intro hj
    exact h.lt j (List.mem_append_left _ hj)
  · -- the parent of a node has a smaller number
    induction j using Nat.strongRecOn with
    | _ j ih =>
      intro hj
      rcases Nat.eq_zero_or_pos j with rfl | hpos
      · simpa using h.root
      · obtain ⟨p, hlt, hp⟩ := ht.parent j hpos hj
        have hmet := (h.met j p hj hp).mpr (ih p hlt (by omega))
        simpa using hmet

end Forest
