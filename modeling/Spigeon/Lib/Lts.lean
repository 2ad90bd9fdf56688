import Mathlib.Data.List.Basic

/-!
# Transition systems given by a partial step function

A system is a function `step : S → L → Option S`: `none` means that the label is
not enabled. A run is a list of labels.

* `run`: the state a list of labels leads to.
* `Along P`: every step of the run, seen as the state before it and its label,
  satisfies `P`.
* `Always Q`: every state of the run, the first one included, satisfies `Q`.
* `run_inv_along`: the invariant rule for the last state of a run, with a condition on the
  steps taken.
* `always`, `always_along`: the invariant rules for every point of the run, without and
  with such a condition; `along_of_always`, `along_of_always_along` and `along_of_always_kept`
  go the other way, and `always_iff_along` is both directions at once.
* `along_of_run`: a condition on the steps that can be read off the last state.
* `isSome_run_iff`: the run has no fault exactly if its steps meet a condition.
* `run_filter`: a run without some of its labels simulates the whole.
* `run_rel`: two systems that take related steps.
-/

namespace Lts

variable {S L : Type*} (step : S → L → Option S)

/-- The state after the labels, `none` if one of them is not enabled. -/
def run : S → List L → Option S
  | s, [] => some s
  | s, l :: ls => (step s l).bind fun s' => run s' ls

/-- Every step taken satisfies `P`. -/
def Along (P : S → L → Prop) : S → List L → Prop
  | _, [] => True
  | s, l :: ls => P s l ∧ ∀ s', step s l = some s' → Along P s' ls

/-- Every state of the run satisfies `Q`. -/
def Always (Q : S → Prop) : S → List L → Prop
  | s, [] => Q s
  | s, l :: ls => Q s ∧ ∀ s', step s l = some s' → Always Q s' ls

variable {step}

@[simp] theorem run_nil (s : S) : run step s [] = some s := rfl

theorem run_cons {s s' : S} {l : L} {ls : List L} :
    run step s (l :: ls) = some s' ↔ ∃ t, step s l = some t ∧ run step t ls = some s' := by
  simp [run, Option.bind_eq_some_iff]

theorem run_append {s s' : S} {ls ls' : List L} :
    run step s (ls ++ ls') = some s' ↔ ∃ t, run step s ls = some t ∧ run step t ls' = some s' := by
  induction ls generalizing s with
  | nil => simp
  | cons l ls ih =>
    simp only [List.cons_append, run_cons, ih]
    exact ⟨fun ⟨u, hu, t, ht, h⟩ => ⟨t, ⟨u, hu, ht⟩, h⟩, fun ⟨t, ⟨u, hu, ht⟩, h⟩ => ⟨u, hu, t, ht, h⟩⟩

/-- **Invariant rule with a condition on the steps.** -/
theorem run_inv_along {I : S → Prop} {P : S → L → Prop}
    (hstep : ∀ s l s', I s → P s l → step s l = some s' → I s') {s s' : S} {ls : List L} (h : I s)
    (hP : Along step P s ls) (hr : run step s ls = some s') : I s' := by
  induction ls generalizing s with
  | nil => simp only [run_nil, Option.some.injEq] at hr; exact hr ▸ h
  | cons l ls ih =>
    obtain ⟨t, ht, hr⟩ := run_cons.1 hr
    exact ih (hstep s l t h hP.1 ht) (hP.2 t ht) hr

theorem Along.mono {P P' : S → L → Prop} (hPP : ∀ s l, P s l → P' s l) {s : S} {ls : List L}
    (h : Along step P s ls) : Along step P' s ls := by
  induction ls generalizing s with
  | nil => trivial
  | cons l ls ih => exact ⟨hPP _ _ h.1, fun t ht => ih (h.2 t ht)⟩

/-- A condition on the steps that follows from another one under an invariant of it. -/
theorem Along.mono_inv {I : S → Prop} {P P' : S → L → Prop}
    (hstep : ∀ s l s', I s → P s l → step s l = some s' → I s') (hPP : ∀ s l, I s → P s l → P' s l) {s : S}
    {ls : List L} (h : I s) (hP : Along step P s ls) : Along step P' s ls := by
  induction ls generalizing s with
  | nil => trivial
  | cons l ls ih => exact ⟨hPP s l h hP.1, fun t ht => ih (hstep s l t h hP.1 ht) (hP.2 t ht)⟩

theorem Along.and {P P' : S → L → Prop} {s : S} {ls : List L} (h : Along step P s ls) (h' : Along step P' s ls) :
    Along step (fun s l => P s l ∧ P' s l) s ls := by
  induction ls generalizing s with
  | nil => trivial
  | cons l ls ih => exact ⟨⟨h.1, h'.1⟩, fun t ht => ih (h.2 t ht) (h'.2 t ht)⟩

/-- A condition on the labels alone. -/
theorem along_of_forall {P : L → Prop} {s : S} {ls : List L} (h : ∀ l ∈ ls, P l) :
    Along step (fun _ l => P l) s ls := by
  induction ls generalizing s with
  | nil => trivial
  | cons l ls ih =>
    exact ⟨h l List.mem_cons_self, fun t _ => ih fun m hm => h m (List.mem_cons_of_mem _ hm)⟩

theorem Always.mono {Q Q' : S → Prop} (hQQ : ∀ s, Q s → Q' s) {s : S} {ls : List L}
    (h : Always step Q s ls) : Always step Q' s ls := by
  induction ls generalizing s with
  | nil => exact hQQ _ h
  | cons l ls ih => exact ⟨hQQ _ h.1, fun t ht => ih (h.2 t ht)⟩

theorem Always.head {Q : S → Prop} {s : S} {ls : List L} (h : Always step Q s ls) : Q s := by
  cases ls with
  | nil => exact h
  | cons l ls => exact h.1

/-- An invariant holds at every point of a run. -/
theorem always {I : S → Prop} (hstep : ∀ s l s', I s → step s l = some s' → I s') {s : S} {ls : List L}
    (h : I s) : Always step I s ls := by
  induction ls generalizing s with
  | nil => exact h
  | cons l ls ih => exact ⟨h, fun t ht => ih (hstep s l t h ht)⟩

/-- An invariant holds at every point of a run whose steps meet the condition. -/
theorem always_along {I : S → Prop} {P : S → L → Prop}
    (hstep : ∀ s l s', I s → P s l → step s l = some s' → I s') {s : S} {ls : List L} (h : I s)
    (hP : Along step P s ls) : Always step I s ls := by
  induction ls generalizing s with
  | nil => exact h
  | cons l ls ih => exact ⟨h, fun t ht => ih (hstep s l t h hP.1 ht) (hP.2 t ht)⟩

/-- A condition `P` on the steps of a run that always satisfies `Q`, when the invariant is kept
as long as `Q` holds. -/
theorem along_of_always_kept {I Q : S → Prop} {P R : S → L → Prop}
    (hstep : ∀ s l s', I s → R s l → step s l = some s' → Q s' → I s')
    (hP : ∀ s l, I s → R s l → Q s → (∀ s', step s l = some s' → Q s') → P s l) {s : S} {ls : List L} (h : I s)
    (hR : Along step R s ls) (hQ : Always step Q s ls) : Along step P s ls := by
  induction ls generalizing s with
  | nil => trivial
  | cons l ls ih =>
    refine ⟨hP s l h hR.1 hQ.1 fun t ht => (hQ.2 t ht).head, ?_⟩
    intro t ht
    exact ih (hstep s l t h hR.1 ht (hQ.2 t ht).head) (hR.2 t ht) (hQ.2 t ht)

/-- A condition on the steps that can be read off the states they lead to, along a run
whose steps meet another one. -/
theorem along_of_always_along {I Q : S → Prop} {P R : S → L → Prop}
    (hstep : ∀ s l s', I s → R s l → step s l = some s' → I s')
    (hP : ∀ s l, I s → R s l → Q s → (∀ s', step s l = some s' → Q s') → P s l) {s : S} {ls : List L} (h : I s)
    (hR : Along step R s ls) (hQ : Always step Q s ls) : Along step P s ls :=
  along_of_always_kept (fun s l s' hI hR hst _ => hstep s l s' hI hR hst) hP h hR hQ

/-- A condition on the steps that can be read off the states they lead to. -/
theorem along_of_always {I Q : S → Prop} {P : S → L → Prop}
    (hstep : ∀ s l s', I s → step s l = some s' → I s')
    (hP : ∀ s l, I s → Q s → (∀ s', step s l = some s' → Q s') → P s l) {s : S} {ls : List L} (h : I s)
    (hQ : Always step Q s ls) : Along step P s ls :=
  along_of_always_along (fun s l s' hI _ => hstep s l s' hI) (fun s l hI _ => hP s l hI) h
    (along_of_forall fun _ _ => trivial) hQ

/-- **A property of the states as a condition on the steps.** Each step keeps `Q` exactly if it
meets `P`, and a step that does not meet it can be taken. -/
theorem always_iff_along {I Q : S → Prop} {P R : S → L → Prop}
    (hstep : ∀ s l s', I s → R s l → step s l = some s' → I s')
    (hiff : ∀ s l s', I s → R s l → Q s → step s l = some s' → (Q s' ↔ P s l))
    (hbad : ∀ s l, I s → R s l → ¬ P s l → ∃ s', step s l = some s') {s : S} {ls : List L} (h : I s) (hQ : Q s)
    (hR : Along step R s ls) : Always step Q s ls ↔ Along step P s ls := by
  constructor
  · refine along_of_always_along hstep ?_ h hR
    intro s l hs hRl hQs hnext
    by_contra hP
    obtain ⟨s', hst⟩ := hbad s l hs hRl hP
    exact hP ((hiff s l s' hs hRl hQs hst).1 (hnext s' hst))
  · intro hP
    have hall : Always step (fun s => I s ∧ Q s) s ls := by
      refine always_along ?_ ⟨h, hQ⟩ (hR.and hP)
      intro s l s' hs hl hst
      exact ⟨hstep s l s' hs.1 hl.1 hst, (hiff s l s' hs.1 hl.1 hs.2 hst).2 hl.2⟩
    exact hall.mono fun _ hs => hs.2

theorem Along.congr {P P' : S → L → Prop} (h : ∀ s l, P s l ↔ P' s l) {s : S} {ls : List L} :
    Along step P s ls ↔ Along step P' s ls :=
  ⟨Along.mono fun s l => (h s l).1, Along.mono fun s l => (h s l).2⟩

/-- A condition on the steps of a run whose violation shows in all later states. -/
theorem along_of_run {I B : S → Prop} {P : S → L → Prop} (hstep : ∀ s l s', I s → step s l = some s' → I s')
    (hB : ∀ s l s', I s → B s → step s l = some s' → B s')
    (hP : ∀ s l s', I s → step s l = some s' → ¬ P s l → B s') {s s' : S} {ls : List L} (h : I s)
    (hr : run step s ls = some s') (hend : ¬ B s') : Along step P s ls := by
  induction ls generalizing s with
  | nil => trivial
  | cons l ls ih =>
    obtain ⟨t, ht, hr⟩ := run_cons.1 hr
    refine ⟨?_, fun u hu => ?_⟩
    · by_contra hbad
      have hIB : I s' ∧ B s' :=
        run_inv_along (I := fun s => I s ∧ B s) (P := fun _ _ => True)
          (fun s l s' hs _ hst => ⟨hstep s l s' hs.1 hst, hB s l s' hs.1 hs.2 hst⟩)
          ⟨hstep s l t h ht, hP s l t h ht hbad⟩ (along_of_forall fun _ _ => trivial) hr
      exact hend hIB.2
    · cases ht.symm.trans hu
      exact ih (hstep s l t h ht) hr

/-- What is left of a run meets the condition. -/
theorem Along.suffix {P : S → L → Prop} {s s' : S} {ls ls' : List L} (h : Along step P s (ls ++ ls'))
    (hr : run step s ls = some s') : Along step P s' ls' := by
  induction ls generalizing s with
  | nil =>
    simp only [run_nil, Option.some.injEq] at hr
    exact hr ▸ h
  | cons l ls ih =>
    obtain ⟨t, ht, hr⟩ := run_cons.1 hr
    exact ih (h.2 t ht) hr

/-- The first part of a run meets the condition. -/
theorem Along.left {P : S → L → Prop} {s : S} {ls ls' : List L} (h : Along step P s (ls ++ ls')) :
    Along step P s ls := by
  induction ls generalizing s with
  | nil => trivial
  | cons l ls ih => exact ⟨h.1, fun t ht => ih (h.2 t ht)⟩

/-- **A run without a fault**: a step is taken, and keeps the invariant, exactly if it meets the condition. -/
theorem isSome_run_iff {I : S → Prop} {P R : S → L → Prop}
    (hstep : ∀ s l, I s → R s l → P s l → ∃ s', step s l = some s' ∧ I s')
    (hbad : ∀ s l, I s → R s l → ¬ P s l → step s l = none) {s : S} {ls : List L} (h : I s)
    (hR : Along step R s ls) :
    (run step s ls).isSome ↔ Along step P s ls := by
  induction ls generalizing s with
  | nil => exact iff_of_true rfl trivial
  | cons l ls ih =>
    by_cases hP : P s l
    · obtain ⟨t, ht, hI⟩ := hstep s l h hR.1 hP
      have hrun : run step s (l :: ls) = run step t ls := by rw [run, ht, Option.bind_some]
      rw [hrun, ih hI (hR.2 t ht)]
      refine ⟨fun hall => ⟨hP, fun u hu => ?_⟩, fun hall => hall.2 t ht⟩
      cases ht.symm.trans hu
      exact hall
    · have hrun : run step s (l :: ls) = none := by rw [run, hbad s l h hR.1 hP, Option.bind_none]
      rw [hrun]
      exact iff_of_false (by simp) fun hall => hP hall.1

/-- **Simulation of a run by the labels kept.** -/
theorem run_filter {R : S → S → Prop} {P : S → L → Prop} {keep : L → Bool}
    (hkeep : ∀ s t l s', R s t → P s l → keep l = true → step s l = some s' → ∃ t', step t l = some t' ∧ R s' t')
    (hdrop : ∀ s t l s', R s t → P s l → keep l = false → step s l = some s' → R s' t) {s t s' : S} {ls : List L}
    (h : R s t) (hP : Along step P s ls) (hr : run step s ls = some s') :
    ∃ t', run step t (ls.filter keep) = some t' ∧ R s' t' := by
  induction ls generalizing s t with
  | nil =>
    simp only [run_nil, Option.some.injEq] at hr
    exact ⟨t, rfl, hr ▸ h⟩
  | cons l ls ih =>
    obtain ⟨u, hu, hr⟩ := run_cons.1 hr
    cases hl : keep l with
    | true =>
      obtain ⟨u', hu', hR⟩ := hkeep s t l u h hP.1 hl hu
      obtain ⟨t', ht', hR'⟩ := ih hR (hP.2 u hu) hr
      rw [List.filter_cons_of_pos hl]
      exact ⟨t', run_cons.2 ⟨u', hu', ht'⟩, hR'⟩
    | false =>
      rw [List.filter_cons_of_neg (by rw [hl]; exact Bool.false_ne_true)]
      exact ih (hdrop s t l u h hP.1 hl hu) (hP.2 u hu) hr

/-- **Two systems step for step**: as long as the second one meets the condition, both have a fault at the same
step, and related states before it. -/
theorem run_rel {T M : Type*} {step' : T → M → Option T} {R : S → T → Prop} {P : T → M → Prop} {f : L → M}
    (hstep : ∀ s t l, R s t → P t (f l) → Option.Rel R (step s l) (step' t (f l))) {s : S} {t : T} {ls : List L}
    (h : R s t)
    (hP : Along step' P t (ls.map f)) : Option.Rel R (run step s ls) (run step' t (ls.map f)) := by
  induction ls generalizing s t with
  | nil => exact .some h
  | cons l ls ih =>
    rw [List.map_cons] at hP ⊢
    rw [run, run]
    have hl := hstep s t l h hP.1
    generalize step s l = x at hl
    generalize hy : step' t (f l) = y at hl
    cases hl with
    | some hst =>
      rw [Option.bind_some, Option.bind_some]
      exact ih hst (hP.2 _ hy)
    | none => exact .none

/-- The run of a system in which every label is enabled. -/
theorem run_total (next : S → L → S) (s : S) (ls : List L) :
    run (fun s l => some (next s l)) s ls = some (ls.foldl next s) := by
  induction ls generalizing s with
  | nil => rfl
  | cons l ls ih => exact ih (next s l)

instance decidableAlong {P : S → L → Prop} [∀ s l, Decidable (P s l)] :
    ∀ (s : S) (ls : List L), Decidable (Along step P s ls)
  | _, [] => isTrue trivial
  | s, l :: ls =>
    match h : step s l with
    | none => decidable_of_iff (P s l) ⟨fun hp => ⟨hp, fun t ht => by rw [h] at ht; cases ht⟩, And.left⟩
    | some t =>
      have : Decidable (Along step P t ls) := decidableAlong t ls
      decidable_of_iff (P s l ∧ Along step P t ls)
        ⟨fun hp => ⟨hp.1, fun u hu => by rw [h] at hu; cases hu; exact hp.2⟩, fun hp => ⟨hp.1, hp.2 t h⟩⟩

/-- What holds at every point holds at the end. -/
theorem Always.last {Q : S → Prop} {s s' : S} {ls : List L} (h : Always step Q s ls)
    (hr : run step s ls = some s') : Q s' := by
  induction ls generalizing s with
  | nil => simp only [run_nil, Option.some.injEq] at hr; exact hr ▸ h
  | cons l ls ih =>
    obtain ⟨t, ht, hr⟩ := run_cons.1 hr
    exact ih (h.2 t ht) hr

end Lts
