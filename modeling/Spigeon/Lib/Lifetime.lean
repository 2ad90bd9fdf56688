import Mathlib.Data.List.Basic
import Mathlib.Data.List.Pairwise

/-!
# Lifetimes of objects in a log of uses

Objects are used, dropped, and have an outside resource that is shut. A log is sound
when nothing is used or dropped after it was dropped, and nothing is shut twice.
-/

namespace Lifetime

variable {ι : Type*}

inductive Act (ι : Type*) where
  | use (i : ι)
  | drop (i : ι)
  | shut (i : ι)
deriving DecidableEq, Repr

/-- The second may come after the first. -/
def Act.Before : Act ι → Act ι → Prop
  | .drop i, .use j => i ≠ j
  | .drop i, .drop j => i ≠ j
  | .shut i, .shut j => i ≠ j
  | _, _ => True

instance [DecidableEq ι] : ∀ a b : Act ι, Decidable (a.Before b)
  | .drop i, .use j => inferInstanceAs (Decidable (i ≠ j))
  | .drop i, .drop j => inferInstanceAs (Decidable (i ≠ j))
  | .shut i, .shut j => inferInstanceAs (Decidable (i ≠ j))
  | .use _, .use _ => isTrue trivial
  | .use _, .drop _ => isTrue trivial
  | .use _, .shut _ => isTrue trivial
  | .drop _, .shut _ => isTrue trivial
  | .shut _, .use _ => isTrue trivial
  | .shut _, .drop _ => isTrue trivial

def Sound (log : List (Act ι)) : Prop := log.Pairwise Act.Before

instance [DecidableEq ι] (log : List (Act ι)) : Decidable (Sound log) :=
  inferInstanceAs (Decidable (log.Pairwise Act.Before))

variable {log : List (Act ι)} {i : ι}

theorem Sound.snoc (h : Sound log) {b : Act ι} (hb : ∀ a ∈ log, a.Before b) : Sound (log ++ [b]) := by
  refine List.pairwise_append.2 ⟨h, List.pairwise_singleton _ _, ?_⟩
  intro a ha c hc
  rw [List.mem_singleton.1 hc]; exact hb a ha

theorem Sound.use (h : Sound log) (hi : Act.drop i ∉ log) : Sound (log ++ [.use i]) := by
  refine h.snoc fun a ha => ?_
  cases a with
  | drop j => rintro rfl; exact hi ha
  | use j => trivial
  | shut j => trivial

theorem Sound.drop (h : Sound log) (hi : Act.drop i ∉ log) : Sound (log ++ [.drop i]) := by
  refine h.snoc fun a ha => ?_
  cases a with
  | drop j => rintro rfl; exact hi ha
  | use j => trivial
  | shut j => trivial

theorem Sound.uses (h : Sound log) {is : List ι} (his : ∀ i ∈ is, Act.drop i ∉ log) :
    Sound (log ++ is.map .use) := by
  induction is generalizing log with
  | nil => simpa using h
  | cons i is ih =>
    have hhead := h.use (his i List.mem_cons_self)
    have htail := ih hhead fun j hj hmem => ?_
    · rw [List.append_assoc, List.singleton_append] at htail
      exact htail
    · rcases List.mem_append.1 hmem with hmem | hmem
      · exact his j (List.mem_cons_of_mem _ hj) hmem
      · cases List.mem_singleton.1 hmem

theorem Sound.drops (h : Sound log) {is : List ι} (hnodup : is.Nodup) (his : ∀ i ∈ is, Act.drop i ∉ log) :
    Sound (log ++ is.map .drop) := by
  induction is generalizing log with
  | nil => simpa using h
  | cons i is ih =>
    obtain ⟨hi, hnodup⟩ := List.nodup_cons.1 hnodup
    have hhead := h.drop (his i List.mem_cons_self)
    have htail := ih hhead hnodup fun j hj hmem => ?_
    · rw [List.append_assoc, List.singleton_append] at htail
      exact htail
    · rcases List.mem_append.1 hmem with hmem | hmem
      · exact his j (List.mem_cons_of_mem _ hj) hmem
      · cases List.mem_singleton.1 hmem
        exact hi hj

/-- A log with a use after the drop is not sound. -/
theorem not_sound_of_use (hi : Act.drop i ∈ log) : ¬ Sound (log ++ [.use i]) := by
  intro h
  have hbefore := (List.pairwise_append.1 h).2.2 (.drop i) hi (.use i) List.mem_cons_self
  exact hbefore rfl

theorem Sound.shut (h : Sound log) (hi : Act.shut i ∉ log) : Sound (log ++ [.shut i]) := by
  refine h.snoc fun a ha => ?_
  cases a with
  | shut j => rintro rfl; exact hi ha
  | use j => trivial
  | drop j => trivial

end Lifetime
