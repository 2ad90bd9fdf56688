import Mathlib.Logic.Basic

/-!
# Refinement of programs with faults and errors

A concrete program is of type `ExceptT (ε × σ) Option α`: it may fault, and an error comes with the state in
which it was raised. `Refines S R x y` says that it does what the program `y` on abstract states does: it does not
fault, it raises the same errors in related states, and its results are related.

* `Refines.bind`: refinement is proved along the text of the two programs.
-/

namespace Refine

variable {ε σ τ α β γ δ : Type} {S : σ → τ → Prop}

/-- The concrete program does what the abstract one does. -/
def Refines (S : σ → τ → Prop) (R : α → β → Prop) (x : ExceptT (ε × σ) Option α) (y : Except (ε × τ) β) : Prop :=
  match y with
  | .ok b => ∃ a, x.run = some (.ok a) ∧ R a b
  | .error (e, t) => ∃ s, x.run = some (.error (e, s)) ∧ S s t

theorem Refines.bind {R : α → β → Prop} {R' : γ → δ → Prop} {x : ExceptT (ε × σ) Option α} {y : Except (ε × τ) β}
    {f : α → ExceptT (ε × σ) Option γ} {g : β → Except (ε × τ) δ} (h : Refines S R x y)
    (hf : ∀ a b, y = .ok b → R a b → Refines S R' (f a) (g b)) : Refines S R' (x >>= f) (y >>= g) := by
  cases y with
  | ok b =>
    obtain ⟨a, hx, hab⟩ := h
    have hrun : (x >>= f).run = (f a).run := by
      rw [ExceptT.run_bind, hx]
      rfl
    have hfab := hf a b rfl hab
    unfold Refines at hfab ⊢
    rw [hrun]
    exact hfab
  | error p =>
    obtain ⟨s, hx, hs⟩ := h
    refine ⟨s, ?_, hs⟩
    rw [ExceptT.run_bind, hx]
    rfl

theorem Refines.ok {R : α → β → Prop} {a : α} {b : β} (h : R a b) :
    Refines S R (pure a : ExceptT (ε × σ) Option α) (.ok b) := ⟨a, rfl, h⟩

theorem Refines.error {R : α → β → Prop} {s : σ} {t : τ} (h : S s t) (e : ε) :
    Refines S R (throw (e, s) : ExceptT (ε × σ) Option α) (.error (e, t)) := ⟨s, rfl, h⟩

/-- A step that may fault, where it does not. -/
theorem lift_bind (a : α) (f : α → ExceptT (ε × σ) Option β) :
    ((liftM (some a) : ExceptT (ε × σ) Option α) >>= f) = f a := rfl

/-- A result of an abstract program, step by step. -/
theorem bind_eq_ok {x : Except ε α} {f : α → Except ε β} {b : β} (h : x >>= f = .ok b) :
    ∃ a, x = .ok a ∧ f a = .ok b := by
  cases x with
  | error e => cases h
  | ok a => exact ⟨a, rfl, h⟩

end Refine
