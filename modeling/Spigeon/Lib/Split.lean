import Mathlib.Data.List.Basic
import Mathlib.Data.List.Infix

/-!
# Texts cut at a separator

A text is cut at the occurrences of `sep`, from the left and without overlaps. `IsSplit` says which lists of
pieces come out of that; each text has one of them (`IsSplit.unique`).
-/

namespace Split

variable {α : Type*} {sep t t' : List α} {ts ts' : List (List α)}

/-- The first occurrence of the separator in `t ++ sep` is the one at its end. -/
def Free (sep t : List α) : Prop := ∀ i < t.length, ¬ sep <+: (t ++ sep).drop i

instance [DecidableEq α] : Decidable (Free sep t) := inferInstanceAs (Decidable (∀ i < t.length, _))

/-- The pieces of a text: the separator is found behind each of them first, and is not in the last one. -/
inductive IsSplit (sep : List α) : List (List α) → Prop
  | last {t : List α} (h : ¬ sep <:+: t) : IsSplit sep [t]
  | cons {t : List α} {ts : List (List α)} (h : Free sep t) (hts : IsSplit sep ts) : IsSplit sep (t :: ts)

theorem IsSplit.ne_nil (h : IsSplit sep ts) : ts ≠ [] := by
  cases h with
  | last => exact List.cons_ne_nil _ _
  | cons => exact List.cons_ne_nil _ _

theorem intercalate_cons (h : ts ≠ []) : sep.intercalate (t :: ts) = t ++ sep ++ sep.intercalate ts := by
  cases ts with
  | nil => exact absurd rfl h
  | cons t' ts => rw [List.append_assoc]; rfl

theorem intercalate_singleton : sep.intercalate [t] = t := by simp [List.intercalate]

/-- The separator is not found earlier, whatever stands behind it. -/
theorem Free.of_drop (rest : List α) (h : ∀ i < t.length, ¬ sep <+: (t ++ sep ++ rest).drop i) : Free sep t := by
  intro i hi hpre
  exact h i hi (hpre.trans ((List.prefix_append (t ++ sep) rest).drop i))

/-- Two first occurrences are at the same place. -/
theorem Free.length_le {x x' : List α} (h' : Free sep t') (heq : t ++ sep ++ x = t' ++ sep ++ x') :
    t'.length ≤ t.length := by
  by_contra hlt
  refine h' t.length (by omega) ?_
  have hpre : sep <+: (t' ++ sep ++ x').drop t.length := by
    rw [← heq, List.append_assoc, List.drop_left]
    exact List.prefix_append _ _
  refine List.prefix_of_prefix_length_le hpre ((List.prefix_append (t' ++ sep) x').drop t.length) ?_
  rw [List.length_drop, List.length_append]
  omega

/-- **A text has one list of pieces.** -/
theorem IsSplit.unique (h : IsSplit sep ts) (h' : IsSplit sep ts')
    (heq : sep.intercalate ts = sep.intercalate ts') :
    ts = ts' := by
  induction h generalizing ts' with
  | @last t hlast =>
    cases h' with
    | last _ => rw [intercalate_singleton, intercalate_singleton] at heq; rw [heq]
    | cons hfree hts =>
      rw [intercalate_singleton, intercalate_cons hts.ne_nil] at heq
      exact absurd ⟨_, _, heq.symm⟩ hlast
  | @cons t ts hfree hts ih =>
    rw [intercalate_cons hts.ne_nil] at heq
    cases h' with
    | last hlast =>
      rw [intercalate_singleton] at heq
      exact absurd ⟨_, _, heq⟩ hlast
    | @cons t' ts' hfree' hts' =>
      rw [intercalate_cons hts'.ne_nil] at heq
      have hlen : t.length = t'.length := le_antisymm (hfree.length_le heq.symm) (hfree'.length_le heq)
      rw [List.append_assoc, List.append_assoc] at heq
      obtain ⟨rfl, hrest⟩ := List.append_inj heq hlen
      rw [ih hts' (List.append_cancel_left hrest)]

/-- Pieces that are found one after the other, and what is left. -/
theorem IsSplit.of_found (hts : ∀ t ∈ ts, Free sep t) (hlast : ¬ sep <:+: t) : IsSplit sep (ts ++ [t]) := by
  induction ts with
  | nil => exact .last hlast
  | cons u ts ih => exact .cons (hts u List.mem_cons_self) (ih fun v hv => hts v (List.mem_cons_of_mem _ hv))

theorem intercalate_found : sep.intercalate (ts ++ [t]) = (ts.map (· ++ sep)).flatten ++ t := by
  induction ts with
  | nil => exact intercalate_singleton
  | cons u ts ih =>
    rw [List.cons_append, intercalate_cons (by simp), ih, List.map_cons, List.flatten_cons,
      List.append_assoc (u ++ sep)]

end Split
