import Mathlib.Algebra.BigOperators.Group.List.Lemmas
import Mathlib.Algebra.Order.BigOperators.Group.List
import Mathlib.Algebra.Order.Group.Nat
import Mathlib.Data.List.Basic
import Mathlib.Data.List.DropRight
import Mathlib.Data.List.Induction
import Mathlib.Data.List.Nodup
import Mathlib.Order.Bounds.Defs
import Mathlib.Order.Lattice
import Mathlib.Tactic.Abel

/-!
# Lists with one entry replaced or added, and lists without repetitions

* `set_cases`, `concat_cases`: the entries after a change.
* `map_set_of_eq`: a change that a function does not see.
* `sum_map_set`, `sum_map_update`: what one change does to a sum.
* `sum_map_eq_iff`: when two sums are equal, term by term.
* `exists_trailing`, `rdropWhile_append`, `rtakeWhile_append`: the longest end with a property.
* `isGreatest_foldl_max`: a loop that keeps the larger value.
* `filterMap_perm`, `sum_map_eq`: over lists without repetitions, only the members that matter
  count.
-/

namespace List

variable {α : Type*}

/-- An entry after a replacement is the new one, or an old one elsewhere. -/
theorem set_cases {l : List α} {i j : ℕ} {a b : α} (h : (l.set i a)[j]? = some b) :
    (j = i ∧ b = a) ∨ (j ≠ i ∧ l[j]? = some b) := by
  rw [List.getElem?_set] at h
  split at h
  · rename_i hij
    split at h
    · exact Or.inl ⟨hij.symm, (Option.some.inj h).symm⟩
    · cases h
  · rename_i hij
    exact Or.inr ⟨fun he => hij he.symm, h⟩

theorem eq_of_set {l : List α} {i : ℕ} {a b : α} (h : (l.set i a)[i]? = some b) : b = a := by
  rcases set_cases h with ⟨-, hb⟩ | ⟨hne, -⟩
  · exact hb
  · exact absurd rfl hne

/-- An entry after one was added at the end is an old one or the new one. -/
theorem concat_cases {l : List α} {j : ℕ} {a b : α} (h : (l ++ [a])[j]? = some b) :
    l[j]? = some b ∨ (j = l.length ∧ b = a) := by
  rcases Nat.lt_trichotomy j l.length with hlt | rfl | hgt
  · rw [List.getElem?_append_left hlt] at h
    exact Or.inl h
  · rw [List.getElem?_concat_length, Option.some.injEq] at h
    exact Or.inr ⟨rfl, h.symm⟩
  · rw [List.getElem?_eq_none (by rw [List.length_append, List.length_singleton]; omega)] at h
    cases h

/-- A replacement that a function does not see. -/
theorem map_set_of_eq {β : Type*} {f : α → β} {l : List α} {i : ℕ} {a b : α} (h : l[i]? = some a)
    (hf : f b = f a) :
    (l.set i b).map f = l.map f := by
  have hmap : (l.map f)[i]? = some (f a) := by rw [List.getElem?_map, h]; rfl
  obtain ⟨hlt, hget⟩ := List.getElem?_eq_some_iff.mp hmap
  rw [List.map_set, hf, ← hget, List.set_getElem_self]

/-- Sums of which one is below the other term by term are equal only term by term. -/
theorem sum_map_eq_iff {f g : α → ℕ} {l : List α} (h : ∀ a ∈ l, f a ≤ g a) :
    (l.map f).sum = (l.map g).sum ↔ ∀ a ∈ l, f a = g a := by
  induction l with
  | nil => simp
  | cons a l ih =>
    have hhead := h a mem_cons_self
    have htail : ∀ b ∈ l, f b ≤ g b := fun b hb => h b (mem_cons_of_mem a hb)
    have hsum := List.sum_le_sum htail
    rw [map_cons, map_cons, sum_cons, sum_cons, forall_mem_cons, ← ih htail]
    omega

/-- A sum over the entries goes with the one replaced. -/
theorem sum_map_set {M : Type*} [AddCommMonoid M] (f : α → M) {l : List α} {i : ℕ} {a b : α}
    (h : l[i]? = some a) :
    ((l.set i b).map f).sum + f a = (l.map f).sum + f b := by
  induction l generalizing i with
  | nil => cases h
  | cons c l ih =>
    cases i with
    | zero =>
      simp only [List.getElem?_cons_zero, Option.some.injEq] at h
      simp only [List.set_cons_zero, List.map_cons, List.sum_cons, h]
      abel
    | succ i =>
      simp only [List.set_cons_succ, List.map_cons, List.sum_cons]
      rw [add_assoc, ih h, add_assoc]

/-- The same for a function with one value replaced, over a list without repetitions. -/
theorem sum_map_update {ι M : Type*} [DecidableEq ι] [AddCommMonoid M] (f : ι → M) {l : List ι} (hl : l.Nodup)
    {i : ι} (hi : i ∈ l) (x : M) : (l.map (Function.update f i x)).sum + f i = (l.map f).sum + x := by
  induction l with
  | nil => cases hi
  | cons j l ih =>
    obtain ⟨hj, hl⟩ := List.nodup_cons.1 hl
    simp only [List.map_cons, List.sum_cons]
    by_cases hij : i = j
    · subst hij
      have hrest : l.map (Function.update f i x) = l.map f := by
        refine List.map_congr_left fun k hk => Function.update_of_ne ?_ x f
        rintro rfl
        exact hj hk
      rw [hrest, Function.update_self]
      abel
    · have hmem : i ∈ l := (List.mem_cons.1 hi).resolve_left hij
      rw [Function.update_of_ne (Ne.symm hij), add_assoc, ih hl hmem, add_assoc]

section Support

variable {ι β : Type*} {l l' : List ι}

theorem filter_perm {p : ι → Bool} (hl : l.Nodup) (hl' : l'.Nodup) (h : ∀ i, p i = true → (i ∈ l ↔ i ∈ l')) :
    (l.filter p).Perm (l'.filter p) := by
  refine (List.perm_ext_iff_of_nodup (hl.filter p) (hl'.filter p)).2 fun i => ?_
  rw [List.mem_filter, List.mem_filter]
  exact and_congr_left (h i)

theorem filterMap_perm {f : ι → Option β} (hl : l.Nodup) (hl' : l'.Nodup)
    (h : ∀ i, f i ≠ none → (i ∈ l ↔ i ∈ l')) :
    (l.filterMap f).Perm (l'.filterMap f) := by
  have hsome : ∀ m : List ι, m.filterMap f = (m.filter fun i => (f i).isSome).filterMap f := by
    intro m
    rw [List.filterMap_filter]
    refine List.filterMap_congr fun i _ => ?_
    cases f i <;> rfl
  rw [hsome l, hsome l']
  refine (filter_perm hl hl' fun i hi => h i ?_).filterMap f
  exact Option.isSome_iff_ne_none.1 hi

theorem sum_filterMap {M : Type*} [AddCommMonoid M] (f : ι → Option M) (l : List ι) :
    (l.filterMap f).sum = (l.map fun i => (f i).getD 0).sum := by
  induction l with
  | nil => rfl
  | cons i l ih =>
    rw [List.map_cons, List.sum_cons, ← ih, List.filterMap_cons]
    cases f i with
    | none => exact (zero_add _).symm
    | some b => exact List.sum_cons

theorem sum_map_eq {M : Type*} [AddCommMonoid M] {f : ι → M} (hl : l.Nodup) (hl' : l'.Nodup)
    (h : ∀ i, f i ≠ 0 → (i ∈ l ↔ i ∈ l')) : (l.map f).sum = (l'.map f).sum := by
  classical
  let g : ι → Option M := fun i => if f i = 0 then none else some (f i)
  have hg : ∀ m : List ι, (m.filterMap g).sum = (m.map f).sum := by
    intro m
    rw [sum_filterMap]
    refine congrArg List.sum (List.map_congr_left fun i _ => ?_)
    by_cases hi : f i = 0
    · simp only [g, if_pos hi, Option.getD_none, hi]
    · simp only [g, if_neg hi, Option.getD_some]
  rw [← hg l, ← hg l']
  refine (filterMap_perm hl hl' fun i hi => h i ?_).sum_eq
  rintro hzero
  exact hi (if_pos hzero)

end Support

/-- The result of a loop that keeps the larger value. -/
theorem isGreatest_foldl_max [LinearOrder α] (a : α) (l : List α) :
    IsGreatest {x | x ∈ a :: l} (l.foldl max a) := by
  induction l generalizing a with
  | nil =>
    refine ⟨List.mem_cons_self, fun x hx => ?_⟩
    exact le_of_eq (List.mem_singleton.1 hx)
  | cons b l ih =>
    obtain ⟨hmem, hub⟩ := ih (max a b)
    refine ⟨?_, fun x hx => ?_⟩
    · rcases List.mem_cons.1 hmem with heq | hl
      · rw [List.foldl_cons, heq]
        rcases le_total a b with hab | hab
        · rw [max_eq_right hab]
          exact List.mem_cons_of_mem _ List.mem_cons_self
        · rw [max_eq_left hab]
          exact List.mem_cons_self
      · exact List.mem_cons_of_mem _ (List.mem_cons_of_mem _ hl)
    · have hmax : max a b ≤ l.foldl max (max a b) := hub List.mem_cons_self
      rcases List.mem_cons.1 hx with rfl | hx
      · exact le_trans (le_max_left _ _) hmax
      rcases List.mem_cons.1 hx with rfl | hx
      · exact le_trans (le_max_right _ _) hmax
      · exact hub (List.mem_cons_of_mem _ hx)

/-- Every list is a part that does not end in a member with `p`, and members with `p` behind it. -/
theorem exists_trailing (p : α → Prop) (l : List α) :
    ∃ X Y, l = X ++ Y ∧ (∀ y ∈ Y, p y) ∧ ∀ x, X.getLast? = some x → ¬ p x := by
  induction l using List.reverseRecOn with
  | nil => exact ⟨[], [], rfl, by simp, by simp⟩
  | append_singleton l a ih =>
    by_cases ha : p a
    · obtain ⟨X, Y, rfl, hY, hX⟩ := ih
      refine ⟨X, Y ++ [a], by rw [append_assoc], ?_, hX⟩
      intro y hy
      rcases mem_append.mp hy with h | h
      · exact hY y h
      · rw [mem_singleton.mp h]
        exact ha
    · refine ⟨l ++ [a], [], by simp, by simp, ?_⟩
      intro x hx
      rw [getLast?_concat, Option.some.injEq] at hx
      exact hx ▸ ha

section Trailing

variable {p : α → Bool} {X Y : List α}

theorem rdropWhile_append (hY : ∀ y ∈ Y, p y) (hX : ∀ x, X.getLast? = some x → ¬ p x) :
    (X ++ Y).rdropWhile p = X := by
  induction Y using List.reverseRecOn with
  | nil =>
    rw [append_nil, rdropWhile_eq_self_iff]
    intro hl
    exact hX _ (getLast?_eq_some_getLast hl)
  | append_singleton Y y ih =>
    rw [← append_assoc, rdropWhile_concat_pos _ _ _ (hY y (by simp))]
    exact ih fun z hz => hY z (by simp [hz])

theorem rtakeWhile_append (hY : ∀ y ∈ Y, p y) (hX : ∀ x, X.getLast? = some x → ¬ p x) :
    (X ++ Y).rtakeWhile p = Y := by
  have h := rdropWhile_append_rtakeWhile (p := p) (l := X ++ Y)
  rw [rdropWhile_append hY hX] at h
  exact append_cancel_left h

end Trailing

end List
