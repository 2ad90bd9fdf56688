import Mathlib.Data.List.Basic

/-!
# Texts between delimiters

`strtok d s` are the non-empty pieces of `s` between the delimiters `d`, as `strtok_r` returns them one after the
other. `strtok_join`: it inverts `join` on pieces that are not empty and have no delimiter in them.
-/

namespace Strtok

variable {α : Type*} [DecidableEq α] (d : α)

/-- The pieces of a text behind the piece `cur` that has begun. -/
def pieces : List α → List α → List (List α)
  | cur, [] => if cur = [] then [] else [cur]
  | cur, x :: xs =>
    if x = d then if cur = [] then pieces [] xs else cur :: pieces [] xs
    else pieces (cur ++ [x]) xs

def strtok (s : List α) : List (List α) := pieces d [] s

/-- The pieces with a delimiter between any two of them. -/
def join : List (List α) → List α
  | [] => []
  | [t] => t
  | t :: ts => t ++ d :: join ts

variable {d}

theorem pieces_run {t : List α} (ht : d ∉ t) (cur rest : List α) :
    pieces d cur (t ++ rest) = pieces d (cur ++ t) rest := by
  induction t generalizing cur with
  | nil => rw [List.nil_append, List.append_nil]
  | cons x t ih =>
    have hx : x ≠ d := fun h => ht (h ▸ List.mem_cons_self)
    rw [List.cons_append, pieces, if_neg hx, ih fun h => ht (List.mem_cons_of_mem _ h), List.append_assoc]
    rfl

omit [DecidableEq α] in
theorem join_cons {t : List α} {ts : List (List α)} (h : ts ≠ []) : join d (t :: ts) = t ++ d :: join d ts := by
  cases ts with
  | nil => exact absurd rfl h
  | cons t' ts => rfl

/-- **The pieces of joined pieces.** -/
theorem strtok_join {ts : List (List α)} (h : ∀ t ∈ ts, t ≠ [] ∧ d ∉ t) : strtok d (join d ts) = ts := by
  unfold strtok
  induction ts with
  | nil => rfl
  | cons t ts ih =>
    obtain ⟨hne, hd⟩ := h t List.mem_cons_self
    have hts := ih fun u hu => h u (List.mem_cons_of_mem _ hu)
    by_cases hnil : ts = []
    · subst hnil
      have hrun := pieces_run hd [] []
      rw [List.append_nil, List.nil_append] at hrun
      show pieces d [] t = [t]
      rw [hrun, pieces, if_neg hne]
    · rw [join_cons hnil, pieces_run hd, List.nil_append, pieces, if_pos rfl, if_neg hne, hts]

end Strtok
