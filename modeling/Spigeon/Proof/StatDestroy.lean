import Spigeon.Proof.StatRuns

/-!
# `stat_destroy` and the threads that go on

`stat_destroy` deletes the data of all threads and forgets the list; the threads keep their
pointers. A thread that had data and makes a call on its own data afterwards uses what was deleted. All other
calls find the statistics as new.

* `UsesStale`: such a call.
* `next_sound`, `next_not_sound`: calls on live data are sound, the others are not.
* `Afresh`: a state after `stat_destroy` and a new one, as long as no such call is made.
* `destroy_starts_afresh`: the result for all runs.
-/

namespace Spigeon

open CInt Lifetime Lts

variable {s s' : Stat} {ts ts' : List ℕ}

/-- A thread whose data was deleted makes a call on its own data. -/
def UsesStale (s : Stat) (e : StatEvent) : Prop :=
  match e.own with
  | some (t, _, _) => s.stale t = true
  | none => False

instance (s : Stat) (e : StatEvent) : Decidable (UsesStale s e) := by
  unfold UsesStale
  split <;> infer_instance

theorem stale_of_not_uses {e : StatEvent} {t : ℕ} {key : String} {g : ℤ → ℤ} (he : e.own = some (t, key, g))
    (h : ¬ UsesStale s e) : s.stale t = false := by
  unfold UsesStale at h
  rw [he] at h
  exact Bool.not_eq_true _ ▸ h

/-! ## Accesses -/

theorem StatOK.not_dropped (h : StatOK s ts) {i : ℕ} (hi : i ∈ s.list) : Act.drop i ∉ s.acts :=
  fun hdrop => ((h.dropped i).1 hdrop).2 hi

theorem next_sound (h : StatOK s ts) (hsound : Sound s.acts) {e : StatEvent} (he : ¬ UsesStale s e) :
    Sound (s.next e).acts := by
  cases next_moves s e with
  | own t key g hown hs =>
    rw [hs]
    unfold Stat.onThreadData
    cases ht : s.specific t with
    | none =>
      rw [getThreadData_none ht]
      have hnew : s.created ∈ (s.initThreadData t).list := List.mem_append_right _ List.mem_cons_self
      exact hsound.use ((h.initThreadData ht).not_dropped hnew)
    | some i =>
      rw [getThreadData_some ht]
      exact hsound.use (h.not_dropped (stale_eq_false (stale_of_not_uses hown he) ht))
  | touch key _ hs =>
    rw [hs]
    exact hsound.uses fun i hi => h.not_dropped hi
  | look _ hs =>
    rw [hs]
    exact hsound.uses fun i hi => h.not_dropped hi
  | destroy _ hs =>
    rw [hs]
    exact hsound.drops h.nodup fun i hi => h.not_dropped hi

theorem next_not_sound (h : StatOK s ts) {e : StatEvent} (he : UsesStale s e) : ¬ Sound (s.next e).acts := by
  unfold UsesStale at he
  split at he
  · rename_i t key g hown
    rw [next_own hown]
    unfold Stat.onThreadData
    cases ht : s.specific t with
    | none => simp only [Stat.stale, ht, Bool.false_eq_true] at he
    | some i =>
      rw [getThreadData_some ht]
      have hi : i ∉ s.list := by simpa only [Stat.stale, ht, decide_eq_true_eq] using he
      exact not_sound_of_use ((h.dropped i).2 ⟨h.made t i ht, hi⟩)
  · exact he.elim

/-! ## As new -/

/-- A state after `stat_destroy` and one of a run that began there. Threads that are unknown to the first are
unknown to the second; those known to it alone have been left with a pointer to deleted data. -/
structure Afresh (s s' : Stat) : Prop where
  left : ∃ ts, StatOK s ts
  right : ∃ ts, StatOK s' ts
  unknown : ∀ t, s.specific t = none → s'.specific t = none
  live : ∀ t, s.live t = s'.live t
  entry : s.entry = s'.entry

theorem live_statDestroy (s : Stat) (t : ℕ) : s.statDestroy.live t = false := by
  rw [Bool.eq_false_iff, ne_eq, live_iff]
  rintro ⟨i, -, hi⟩
  cases hi

theorem afresh_destroy (h : StatOK s ts) : Afresh s.statDestroy Stat.init := by
  refine ⟨⟨[], h.statDestroy⟩, ⟨[], init_stat_ok⟩, fun _ _ => rfl, fun t => ?_,
    funext fun t => entry_statDestroy s t⟩
  exact live_statDestroy s t

theorem stale_of_unknown {t : ℕ} (ht : s.specific t = none) : s.stale t = false := by
  unfold Stat.stale
  rw [ht]

theorem live_iff_not_stale {t : ℕ} : s.live t = true ↔ s.specific t ≠ none ∧ s.stale t = false := by
  unfold Stat.live Stat.stale
  cases s.specific t with
  | none => simp
  | some i => simp

theorem Afresh.not_stale (h : Afresh s s') {t : ℕ} (ht : s.stale t = false) : s'.stale t = false := by
  cases hspec : s.specific t with
  | none => exact stale_of_unknown (h.unknown t hspec)
  | some i =>
    have hlive : s.live t = true := live_iff_not_stale.2 ⟨hspec ▸ Option.some_ne_none i, ht⟩
    rw [h.live t] at hlive
    exact (live_iff_not_stale.1 hlive).2

theorem specific_onThreadData (s : Stat) (t t' : ℕ) (f : StatContainer → StatContainer) :
    (s.onThreadData t f).specific t' = none ↔ t' ≠ t ∧ s.specific t' = none := by
  unfold Stat.onThreadData
  cases ht : s.specific t with
  | none =>
    rw [getThreadData_none ht]
    by_cases htt : t' = t
    · simp [Stat.access, Stat.initThreadData, htt]
    · simp [Stat.access, Stat.initThreadData, htt]
  | some i =>
    rw [getThreadData_some ht]
    refine ⟨fun hnone => ⟨?_, hnone⟩, fun hnone => hnone.2⟩
    rintro rfl
    exact absurd (ht.symm.trans hnone) (Option.some_ne_none i)

theorem live_onThreadData (h : StatOK s ts) {t : ℕ} (ht : s.stale t = false) (f : StatContainer → StatContainer)
    (t' : ℕ) : (s.onThreadData t f).live t' = true ↔ t' = t ∨ s.live t' = true := by
  rw [live_iff_not_stale, live_iff_not_stale, stale_onThreadData h, ne_eq, specific_onThreadData, not_and_or,
    not_not]
  constructor
  · rintro ⟨heq | hspec, hstale⟩
    · exact .inl heq
    · exact .inr ⟨hspec, hstale⟩
  · rintro (rfl | ⟨hspec, hstale⟩)
    · exact ⟨.inl rfl, ht⟩
    · exact ⟨.inr hspec, hstale⟩

/-- **Calls on live data do not tell the two states apart.** -/
theorem Afresh.next (h : Afresh s s') {e : StatEvent} (he : ¬ UsesStale s e) : Afresh (s.next e) (s'.next e) := by
  obtain ⟨ts, hok⟩ := h.left
  obtain ⟨ts', hok'⟩ := h.right
  have hleft := next_stat_ok h.left e
  have hright := next_stat_ok h.right e
  cases next_moves s e with
  | own t key g hown hs =>
    have hstale := stale_of_not_uses hown he
    have hstale' := h.not_stale hstale
    have hs' := next_own (s := s') hown
    rw [hs] at hleft ⊢
    rw [hs'] at hright ⊢
    refine ⟨hleft, hright, fun t' => ?_, fun t' => ?_, ?_⟩
    · rw [specific_onThreadData, specific_onThreadData]
      exact fun hnone => ⟨hnone.1, h.unknown t' hnone.2⟩
    · rw [Bool.eq_iff_iff, live_onThreadData hok hstale, live_onThreadData hok' hstale', h.live t']
    · rw [entry_onThreadData hok hstale, entry_onThreadData hok' hstale', h.entry]
  | touch key hk hs =>
    subst hk
    have hs' : s'.next (.getSum key) = s'.touchAll key s'.list := statGetSum_state s' key
    rw [hs] at hleft ⊢
    rw [hs'] at hright ⊢
    refine ⟨hleft, hright, h.unknown, h.live, funext fun t => ?_⟩
    rw [entry_touchAll, entry_touchAll, h.live t, h.entry]
  | look hl hs =>
    have hs' : s'.next e = { s' with acts := s'.acts ++ s'.list.map .use } := by
      rcases hl with rfl | ⟨key, rfl⟩
      · exact statGetAll_state s'
      · exact statGetMax_state s' key
    rw [hs] at hleft ⊢
    rw [hs'] at hright ⊢
    exact ⟨hleft, hright, h.unknown, h.live, h.entry⟩
  | destroy hd hs =>
    subst hd
    refine ⟨hleft, hright, h.unknown, fun t => ?_, ?_⟩
    · exact (live_statDestroy s t).trans (live_statDestroy s' t).symm
    · funext t
      exact (entry_statDestroy s t).trans (entry_statDestroy s' t).symm

/-! ## Result -/

/-- The two states give the same answers, to `stat_get` for the threads whose data was not deleted. -/
structure SameReports (s s' : Stat) : Prop where
  get : ∀ t key, s.stale t = false → (s.statGet t key).1 = (s'.statGet t key).1
  sum : ∀ key, (s.statGetSum key).1 = (s'.statGetSum key).1
  max : ∀ key, (s.statGetMax key).1 = (s'.statGetMax key).1
  all : s.statGetAll.1 = s'.statGetAll.1

theorem Afresh.sameReports (h : Afresh s s') : SameReports s s' := by
  obtain ⟨ts, hok⟩ := h.left
  obtain ⟨ts', hok'⟩ := h.right
  have hkey : ∀ key, SameForKey s s' key := fun key => sameForKey hok hok' fun t => by rw [h.entry]
  refine ⟨fun t key hstale => ?_, fun key => (hkey key).sum, fun key => (hkey key).max, ?_⟩
  · rw [statGet_value hok hstale, statGet_value hok' (h.not_stale hstale), h.entry]
  · exact Prod.ext (funext fun key => (hkey key).allSum) (funext fun key => (hkey key).allMax)

/-- The state after calls without stale data, from a state after `stat_destroy`. -/
theorem Afresh.run (h : Afresh s s') {es : List StatEvent}
    (hes : Along Stat.step (fun s e => ¬ UsesStale s e) s es) :
    Afresh (es.foldl Stat.next s) (es.foldl Stat.next s') := by
  induction es generalizing s s' with
  | nil => exact h
  | cons e es ih => exact ih (h.next hes.1) (hes.2 _ rfl)

/-- **`stat_destroy` leaves the statistics usable for new threads only.** No call accesses data that
was deleted, exactly if no thread that had data before a `stat_destroy` makes a call on its
own data after it. Then every query after a `stat_destroy` gives the answer of a run that
begins there. -/
theorem destroy_starts_afresh (es : List StatEvent) :
    (Always Stat.step (fun s => Sound s.acts) Stat.init es ↔
        Along Stat.step (fun s e => ¬ UsesStale s e) Stat.init es) ∧
      ∀ es₁ es₂, es = es₁ ++ .destroy :: es₂ → Along Stat.step (fun s e => ¬ UsesStale s e) Stat.init es →
        SameReports (Stat.after es) (Stat.after es₂) := by
  have hstep : ∀ s e s', (∃ ts, StatOK s ts) → Stat.step s e = some s' → ∃ ts, StatOK s' ts := by
    intro s e s' h hst
    cases hst
    exact next_stat_ok h e
  refine ⟨?_, ?_⟩
  · refine always_iff_along (R := fun _ _ => True) (fun s e s' h _ hst => hstep s e s' h hst) ?_
      (fun s e _ _ _ => ⟨s.next e, rfl⟩) ⟨[], init_stat_ok⟩ List.Pairwise.nil (along_of_forall fun _ _ => trivial)
    rintro s e s' ⟨ts, hok⟩ - hsound hst
    cases hst
    exact ⟨fun hnext hstale => next_not_sound hok hstale hnext, next_sound hok hsound⟩
  · rintro es₁ es₂ rfl halong
    obtain ⟨ts, hok⟩ : ∃ ts, StatOK (Stat.after es₁) ts := (always hstep ⟨[], init_stat_ok⟩).last (run_after es₁)
    have hrest := (halong.suffix (run_after es₁)).2 _ rfl
    have hafresh := (afresh_destroy hok).run hrest
    have hfold : Stat.after (es₁ ++ .destroy :: es₂) = es₂.foldl Stat.next (Stat.after es₁).statDestroy := by
      unfold Stat.after
      rw [List.foldl_append]
      rfl
    rw [hfold]
    exact hafresh.sameReports

/-- Thread 0 counts before the `stat_destroy`, thread 1 after it. -/
def handedOver : List StatEvent := [.incr 0 "k" 3, .destroy, .incr 1 "k" 4]

theorem destroy_starts_afresh_handedOver :
    ((Stat.after handedOver).statGetSum "k").1 = 4 ∧ Sound (Stat.after handedOver).acts := by
  have hresult := destroy_starts_afresh handedOver
  have hstale : Along Stat.step (fun s e => ¬ UsesStale s e) Stat.init handedOver := by decide +kernel
  have hsum := (hresult.2 [.incr 0 "k" 3] [.incr 1 "k" 4] rfl hstale).sum "k"
  exact ⟨hsum.trans (by decide +kernel), (hresult.1.2 hstale).last (run_after handedOver)⟩

/-- A thread counts, the statistics are destroyed, the thread counts again: it locks and writes data that was
deleted. What it writes there is in no sum. -/
theorem count_after_destroy_uses_deleted :
    ¬ Sound (Stat.after [.incr 0 "k" 3, .destroy, .incr 0 "k" 4]).acts ∧
      ((Stat.after [.incr 0 "k" 3, .destroy, .incr 0 "k" 4]).statGetSum "k").1 = 0 := by
  decide +kernel

end Spigeon
