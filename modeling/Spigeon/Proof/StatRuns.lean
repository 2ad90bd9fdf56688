import Spigeon.Proof.Stat

/-!
# Runs of the statistics calls

Two runs are compared through their tables: the answers over all threads depend on what the
threads have for a key, and not on the order in which they came.

* `entries_perm`, `entries_sum`: equal tables, or equal values in the tables, give the same answers.
* `queries_pure`: which answers do not depend on other queries.
* `sum_of_updates`: `stat_get_sum` is the sum of the updates.
-/

namespace Spigeon

open CInt Lifetime Lts

variable {s s' : Stat} {ts ts' : List ℕ} {key : String}

/-! ## Answers from the table -/

theorem entries_perm (h : StatOK s ts) (h' : StatOK s' ts') (heq : ∀ t, s.entry t key = s'.entry t key) :
    (s.entries key).Perm (s'.entries key) := by
  have hrow : (fun t => s'.entry t key) = fun t => s.entry t key := funext fun t => (heq t).symm
  rw [h.entries_eq, h'.entries_eq, hrow]
  refine List.filterMap_perm h.threads_nodup h'.threads_nodup fun t ht => ?_
  exact iff_of_true (h.thread_of_entry ht) (h'.thread_of_entry (heq t ▸ ht))

theorem StatOK.sum_eq (h : StatOK s ts) (key : String) :
    (s.entries key).sum = (ts.map fun t => (s.entry t).valueAt key).sum := by
  rw [h.entries_eq, List.sum_filterMap]
  rfl

theorem StatOK.thread_of_value (h : StatOK s ts) {t : ℕ} (hv : (s.entry t).valueAt key ≠ 0) : t ∈ ts := by
  have hentry : s.entry t key ≠ none := by
    intro hnone
    apply hv
    unfold StatContainer.valueAt
    rw [hnone, Option.getD_none]
  exact h.thread_of_entry hentry

theorem entries_sum (h : StatOK s ts) (h' : StatOK s' ts')
    (heq : ∀ t, (s.entry t).valueAt key = (s'.entry t).valueAt key) :
    (s.entries key).sum = (s'.entries key).sum := by
  have hrow : (fun t => (s'.entry t).valueAt key) = fun t => (s.entry t).valueAt key :=
    funext fun t => (heq t).symm
  rw [h.sum_eq, h'.sum_eq, hrow]
  refine List.sum_map_eq h.threads_nodup h'.threads_nodup fun t ht => ?_
  exact iff_of_true (h.thread_of_value ht) (h'.thread_of_value (heq t ▸ ht))

instance : RightCommutative sumEntry where
  right_comm r v w := by
    simp only [sumEntry, Option.getD_some, toInt64_add_left, add_right_comm]

instance : RightCommutative maxEntry where
  right_comm r v w := by
    cases r with
    | none => simp only [maxEntry, Option.getD_none, Option.getD_some, max_self, max_comm]
    | some u => simp only [maxEntry, Option.getD_some, max_right_comm]

/-- The answers over all threads for a key. -/
structure SameForKey (s s' : Stat) (key : String) : Prop where
  sum : (s.statGetSum key).1 = (s'.statGetSum key).1
  max : (s.statGetMax key).1 = (s'.statGetMax key).1
  allSum : s.statGetAll.1.1 key = s'.statGetAll.1.1 key
  allMax : s.statGetAll.1.2 key = s'.statGetAll.1.2 key

/-- **Equal columns give equal answers.** -/
theorem sameForKey (h : StatOK s ts) (h' : StatOK s' ts') (heq : ∀ t, s.entry t key = s'.entry t key) :
    SameForKey s s' key := by
  have hperm := entries_perm h h' heq
  refine ⟨?_, ?_, ?_, ?_⟩
  · rw [statGetSum_value, statGetSum_value, hperm.sum_eq]
  · rw [statGetMax_value, statGetMax_value, hperm.foldl_eq]
  · rw [statGetAll_sum, statGetAll_sum, hperm.foldl_eq]
  · rw [statGetAll_max, statGetAll_max, hperm.foldl_eq]

/-- The sums of `stat_get_all` are those of `stat_get_sum`. -/
theorem statGetAll_sum_value (s : Stat) (key : String) :
    (s.statGetAll.1.1).valueAt key = toInt64 (s.entries key).sum := by
  unfold StatContainer.valueAt
  by_cases hnil : s.entries key = []
  · rw [statGetAll_sum, hnil]
    decide
  · rw [statGetAll_sum_some hnil, Option.getD_some]

/-! ## Queries -/

/-- The calls that change statistics. -/
def StatEvent.isUpdate : StatEvent → Bool
  | .set _ _ _ | .setMax _ _ _ | .incr _ _ _ | .decr _ _ _ => true
  | .get _ _ | .getSum _ | .getMax _ | .getAll | .destroy => false

/-- A query makes an entry for the key where there was none. -/
def Inserts (s : Stat) (key : String) : StatEvent → Prop
  | .get t k => k = key ∧ s.entry t key = none
  | .getSum k => k = key ∧ ∃ i ∈ s.list, s.data i key = none
  | _ => False

instance (s : Stat) (key : String) (e : StatEvent) : Decidable (Inserts s key e) := by
  unfold Inserts
  split <;> infer_instance

/-- The state is well formed and no thread has a pointer to deleted data. -/
structure Healthy (s : Stat) : Prop where
  ok : ∃ ts, StatOK s ts
  live : ∀ t, s.stale t = false

theorem Healthy.next (h : Healthy s) {e : StatEvent} (he : e ≠ .destroy) : Healthy (s.next e) := by
  obtain ⟨ts, hok⟩ := h.ok
  refine ⟨next_stat_ok h.ok e, fun t => ?_⟩
  cases next_moves s e with
  | own t' key g _ hs =>
    rw [hs, stale_onThreadData hok]
    exact h.live t
  | touch key _ hs =>
    rw [hs]
    exact h.live t
  | look _ hs =>
    rw [hs]
    exact h.live t
  | destroy hd _ => exact absurd hd he

theorem init_healthy : Healthy Stat.init := ⟨⟨[], init_stat_ok⟩, fun _ => rfl⟩

/-- The row of a thread after a call. -/
theorem Healthy.entry_own (h : Healthy s) {e : StatEvent} {t : ℕ} {k : String} {g : ℤ → ℤ}
    (hown : e.own = some (t, k, g)) : (s.next e).entry = Function.update s.entry t ((s.entry t).modify k g) := by
  obtain ⟨ts, hok⟩ := h.ok
  rw [next_own hown]
  exact entry_onThreadData hok (h.live t) _

/-- `stat_get` is the query that works on the data of its thread. -/
theorem own_of_query {e : StatEvent} {t : ℕ} {k : String} {g : ℤ → ℤ} (hq : e.isUpdate = false)
    (hown : e.own = some (t, k, g)) : e = .get t k ∧ g = fun v => v := by
  cases e with
  | get t' k' =>
    cases hown
    exact ⟨rfl, rfl⟩
  | set _ _ _ | setMax _ _ _ | incr _ _ _ | decr _ _ _ => cases hq
  | getSum _ | getMax _ | getAll | destroy => cases hown

/-- Queries keep the values. -/
theorem Healthy.query_value (h : Healthy s) {e : StatEvent} (he : e ≠ .destroy) (hq : e.isUpdate = false) (t : ℕ)
    (k : String) : ((s.next e).entry t).valueAt k = (s.entry t).valueAt k := by
  cases next_moves s e with
  | own t' key g hown _ =>
    rw [h.entry_own hown]
    obtain ⟨-, rfl⟩ := own_of_query hq hown
    by_cases ht : t = t'
    · subst ht
      rw [Function.update_self]
      exact StatContainer.valueAt_touch _ _ _
    · rw [Function.update_of_ne ht]
  | touch key _ hs =>
    rw [hs, entry_touchAll]
    split
    · exact StatContainer.valueAt_touch _ _ _
    · rfl
  | look _ hs =>
    rw [hs]
    rfl
  | destroy hd _ => exact absurd hd he

/-- A query that inserts nothing for the key keeps its column. -/
theorem Healthy.query_entry (h : Healthy s) {e : StatEvent} (he : e ≠ .destroy) (hq : e.isUpdate = false)
    (hins : ¬ Inserts s key e) (t : ℕ) : (s.next e).entry t key = s.entry t key := by
  cases next_moves s e with
  | own t' k g hown _ =>
    rw [h.entry_own hown]
    obtain ⟨rfl, rfl⟩ := own_of_query hq hown
    by_cases ht : t = t'
    · subst ht
      rw [Function.update_self]
      exact StatContainer.touch_eq_self fun hk hnone => hins ⟨hk.symm, hnone⟩
    · rw [Function.update_of_ne ht]
  | touch k hk hs =>
    subst hk
    rw [hs, entry_touchAll]
    split
    · rename_i hlive
      obtain ⟨i, ht, hi⟩ := live_iff.1 hlive
      refine StatContainer.touch_eq_self fun hk hnone => hins ⟨hk.symm, i, hi, ?_⟩
      rw [← entry_of_live ht hi]
      exact hnone
    · rfl
  | look _ hs =>
    rw [hs]
    rfl
  | destroy hd _ => exact absurd hd he

theorem own_of_update {e : StatEvent} (hu : e.isUpdate = true) : ∃ t k g, e.own = some (t, k, g) := by
  cases e with
  | set _ _ _ | setMax _ _ _ | incr _ _ _ | decr _ _ _ => exact ⟨_, _, _, rfl⟩
  | get _ _ | getSum _ | getMax _ | getAll | destroy => cases hu

/-- Two runs in which all threads have the same values. -/
structure SameValues (s s' : Stat) : Prop where
  left : Healthy s
  right : Healthy s'
  values : ∀ t k, (s.entry t).valueAt k = (s'.entry t).valueAt k

theorem SameValues.update (h : SameValues s s') {e : StatEvent} (he : e ≠ .destroy) (hu : e.isUpdate = true) :
    SameValues (s.next e) (s'.next e) := by
  obtain ⟨t, key, g, hown⟩ := own_of_update hu
  refine ⟨h.left.next he, h.right.next he, fun t' k => ?_⟩
  rw [h.left.entry_own hown, h.right.entry_own hown]
  by_cases ht : t' = t
  · rw [ht, Function.update_self, Function.update_self, StatContainer.valueAt_modify,
      StatContainer.valueAt_modify, h.values t key, h.values t k]
  · rw [Function.update_of_ne ht, Function.update_of_ne ht]
    exact h.values t' k

theorem SameValues.query (h : SameValues s s') {e : StatEvent} (he : e ≠ .destroy) (hq : e.isUpdate = false) :
    SameValues (s.next e) s' := by
  refine ⟨h.left.next he, h.right, fun t k => ?_⟩
  rw [h.left.query_value he hq]
  exact h.values t k

/-- Two runs in which all threads have the same entry for the key. -/
structure SameColumn (key : String) (s s' : Stat) : Prop where
  left : Healthy s
  right : Healthy s'
  column : ∀ t, s.entry t key = s'.entry t key

theorem SameColumn.update (h : SameColumn key s s') {e : StatEvent} (he : e ≠ .destroy) (hu : e.isUpdate = true) :
    SameColumn key (s.next e) (s'.next e) := by
  obtain ⟨t, k, g, hown⟩ := own_of_update hu
  refine ⟨h.left.next he, h.right.next he, fun t' => ?_⟩
  rw [h.left.entry_own hown, h.right.entry_own hown]
  by_cases ht : t' = t
  · rw [ht, Function.update_self, Function.update_self]
    by_cases hk : key = k
    · subst hk
      have hvalue : (s.entry t).valueAt key = (s'.entry t).valueAt key := congrArg (Option.getD · 0) (h.column t)
      rw [StatContainer.modify_self, StatContainer.modify_self, hvalue]
    · rw [StatContainer.modify_of_ne _ _ hk, StatContainer.modify_of_ne _ _ hk]
      exact h.column t
  · rw [Function.update_of_ne ht, Function.update_of_ne ht]
    exact h.column t'

theorem SameColumn.query (h : SameColumn key s s') {e : StatEvent} (he : e ≠ .destroy) (hq : e.isUpdate = false)
    (hins : ¬ Inserts s key e) : SameColumn key (s.next e) s' := by
  refine ⟨h.left.next he, h.right, fun t => ?_⟩
  rw [h.left.query_entry he hq hins]
  exact h.column t

theorem run_after (es : List StatEvent) : run Stat.step Stat.init es = some (Stat.after es) :=
  run_total Stat.next Stat.init es

/-- A relation between the run and the run of its updates. -/
theorem after_updates {R : Stat → Stat → Prop} {P : Stat → StatEvent → Prop} (hinit : R Stat.init Stat.init)
    (hupdate : ∀ s s' e, R s s' → P s e → e.isUpdate = true → R (s.next e) (s'.next e))
    (hquery : ∀ s s' e, R s s' → P s e → e.isUpdate = false → R (s.next e) s') {es : List StatEvent}
    (hP : Along Stat.step P Stat.init es) : R (Stat.after es) (Stat.after (es.filter StatEvent.isUpdate)) := by
  have hkeep : ∀ s t l u, R s t → P s l → l.isUpdate = true → Stat.step s l = some u →
      ∃ u', Stat.step t l = some u' ∧ R u u' := by
    intro s t l u h hl hu hst
    cases hst
    exact ⟨t.next l, rfl, hupdate s t l h hl hu⟩
  have hdrop : ∀ s t l u, R s t → P s l → l.isUpdate = false → Stat.step s l = some u → R u t := by
    intro s t l u h hl hq hst
    cases hst
    exact hquery s t l h hl hq
  obtain ⟨s', hrun, hR⟩ := run_filter hkeep hdrop hinit hP (run_after es)
  rw [run_after, Option.some.injEq] at hrun
  rw [hrun]
  exact hR

/-- **Which answers depend on other queries.** After any run of updates and queries by any
threads, `stat_get`, `stat_get_sum` and the sums of `stat_get_all`, read as `stat_get` reads them,
are what they are after the updates alone. So are the answers of `stat_get_max` and
`stat_get_all` for a key that no query has inserted. -/
theorem queries_pure (es : List StatEvent) (hes : ∀ e ∈ es, e ≠ .destroy) :
    (∀ t key, ((Stat.after es).statGet t key).1 = ((Stat.after (es.filter StatEvent.isUpdate)).statGet t key).1) ∧
      (∀ key, ((Stat.after es).statGetSum key).1 =
        ((Stat.after (es.filter StatEvent.isUpdate)).statGetSum key).1 ∧
        (Stat.after es).statGetAll.1.1.valueAt key =
          (Stat.after (es.filter StatEvent.isUpdate)).statGetAll.1.1.valueAt key) ∧
      ∀ key, Along Stat.step (fun s e => ¬ Inserts s key e) Stat.init es →
        SameForKey (Stat.after es) (Stat.after (es.filter StatEvent.isUpdate)) key := by
  have hdestroy : Along Stat.step (fun _ e => e ≠ .destroy) Stat.init es := along_of_forall hes
  have hvalues : SameValues (Stat.after es) (Stat.after (es.filter StatEvent.isUpdate)) :=
    after_updates ⟨init_healthy, init_healthy, fun _ _ => rfl⟩ (fun s s' e h he hu => h.update he hu)
      (fun s s' e h he hq => h.query he hq) hdestroy
  obtain ⟨ts, hok⟩ := hvalues.left.ok
  obtain ⟨ts', hok'⟩ := hvalues.right.ok
  have hsum : ∀ key, ((Stat.after es).entries key).sum =
      ((Stat.after (es.filter StatEvent.isUpdate)).entries key).sum :=
    fun key => entries_sum hok hok' fun t => hvalues.values t key
  refine ⟨fun t key => ?_, fun key => ⟨?_, ?_⟩, fun key hins => ?_⟩
  · rw [statGet_value hok (hvalues.left.live t), statGet_value hok' (hvalues.right.live t)]
    exact hvalues.values t key
  · rw [statGetSum_value, statGetSum_value, hsum]
  · rw [statGetAll_sum_value, statGetAll_sum_value, hsum]
  · -- the maxima see if a key is there, so for them the whole column has to agree
    have hcolumn : SameColumn key (Stat.after es) (Stat.after (es.filter StatEvent.isUpdate)) :=
      after_updates ⟨init_healthy, init_healthy, fun _ => rfl⟩ (fun s s' e h he hu => h.update he.1 hu)
        (fun s s' e h he hq => h.query he.1 hq he.2) (hdestroy.and hins)
    exact sameForKey hok hok' hcolumn.column

/-- A negative value of one key, and queries for another. -/
def askedRun : List StatEvent := [.set 0 "k" (-5), .incr 1 "n" 2, .getSum "n", .get 1 "n", .getMax "k"]

theorem queries_pure_asked :
    ((Stat.after askedRun).statGet 1 "n").1 = 2 ∧ ((Stat.after askedRun).statGetMax "k").1 = -5 ∧
      ((Stat.after askedRun).statGetSum "n").1 =
        ((Stat.after (askedRun.filter StatEvent.isUpdate)).statGetSum "n").1 ∧
      SameForKey (Stat.after askedRun) (Stat.after (askedRun.filter StatEvent.isUpdate)) "k" := by
  have hpure := queries_pure askedRun (by decide)
  exact ⟨by decide +kernel, by decide +kernel, (hpure.2.1 "n").1, hpure.2.2 "k" (by decide +kernel)⟩

/-- Thread 1 asks for a key whose only value is negative: afterwards `stat_get_max` and the
maximum of `stat_get_all` are 0. -/
theorem stat_get_changes_max :
    ((Stat.after [.set 0 "k" (-5), .get 1 "k"]).statGetMax "k").1 = 0 ∧
      ((Stat.after [.set 0 "k" (-5)]).statGetMax "k").1 = -5 ∧
      (Stat.after [.set 0 "k" (-5), .get 1 "k"]).statGetAll.1.2 "k" = some 0 ∧
      (Stat.after [.set 0 "k" (-5)]).statGetAll.1.2 "k" = some (-5) := by
  decide +kernel

/-! ## Sums -/

/-- What a call adds to a key. -/
def StatEvent.stepOf (key : String) : StatEvent → Option ℤ
  | .incr _ k step => if k = key then some step else none
  | .decr _ k step => if k = key then some (-step) else none
  | .set _ _ _ | .setMax _ _ _ | .get _ _ | .getSum _ | .getMax _ | .getAll | .destroy => none

/-- What a run adds to a key, call by call. -/
def stepsOf (key : String) (es : List StatEvent) : List ℤ := es.filterMap (StatEvent.stepOf key)

/-- The key is only counted: it is not set, and the statistics are not destroyed. -/
def StatEvent.counts (key : String) : StatEvent → Bool
  | .set _ k _ | .setMax _ k _ => k ≠ key
  | .destroy => false
  | _ => true

/-- A call of a thread changes the sum as it changes the value of the thread. -/
theorem Healthy.sum_own (h : Healthy s) {e : StatEvent} {t : ℕ} {g : ℤ → ℤ} (he : e ≠ .destroy)
    (hown : e.own = some (t, key, g)) :
    ((s.next e).entries key).sum + (s.entry t).valueAt key =
      (s.entries key).sum + g ((s.entry t).valueAt key) := by
  obtain ⟨ts, hok⟩ := h.ok
  obtain ⟨ts', hok'⟩ := (h.next he).ok
  have hentry := h.entry_own hown
  have hself : (s.next e).entry t key = some (g ((s.entry t).valueAt key)) := by
    rw [hentry, Function.update_self, StatContainer.modify_self]
  have hne : (s.next e).entry t key ≠ none := by
    rw [hself]
    exact Option.some_ne_none _
  have hmem : t ∈ ts' := hok'.thread_of_entry hne
  set v : ℕ → ℤ := fun t => (s.entry t).valueAt key with hv
  have hvalues : (fun t' => ((s.next e).entry t').valueAt key) = Function.update v t (g (v t)) := by
    funext t'
    by_cases ht : t' = t
    · rw [ht, Function.update_self]
      unfold StatContainer.valueAt
      rw [hself, Option.getD_some]
    · rw [Function.update_of_ne ht, hentry, Function.update_of_ne ht]
  -- the call may add the thread to the list, with the value 0 before it
  have hsupport : (ts.map v).sum = (ts'.map v).sum := by
    refine List.sum_map_eq hok.threads_nodup hok'.threads_nodup fun t' ht' => ?_
    refine iff_of_true (hok.thread_of_value ht') ?_
    by_cases ht : t' = t
    · exact ht ▸ hmem
    · have hvalue : ((s.next e).entry t').valueAt key ≠ 0 := by
        rw [hentry, Function.update_of_ne ht]
        exact ht'
      exact hok'.thread_of_value hvalue
  rw [hok.sum_eq, hok'.sum_eq, hvalues, hsupport]
  exact List.sum_map_update v hok'.threads_nodup hmem _

theorem Healthy.sum_other (h : Healthy s) {e : StatEvent} {t : ℕ} {k : String} {g : ℤ → ℤ} (he : e ≠ .destroy)
    (hown : e.own = some (t, k, g)) (hk : key ≠ k) : ((s.next e).entries key).sum = (s.entries key).sum := by
  obtain ⟨ts, hok⟩ := h.ok
  obtain ⟨ts', hok'⟩ := (h.next he).ok
  refine entries_sum hok' hok fun t' => ?_
  rw [h.entry_own hown]
  by_cases ht : t' = t
  · rw [ht, Function.update_self, StatContainer.valueAt_modify, if_neg hk]
  · rw [Function.update_of_ne ht]

theorem Healthy.sum_query (h : Healthy s) {e : StatEvent} (he : e ≠ .destroy) (hq : e.isUpdate = false) :
    ((s.next e).entries key).sum = (s.entries key).sum := by
  obtain ⟨ts, hok⟩ := h.ok
  obtain ⟨ts', hok'⟩ := (h.next he).ok
  exact entries_sum hok' hok fun t => h.query_value he hq t key

/-- **A call adds its step to the sum.** -/
theorem Healthy.sum_next (h : Healthy s) {e : StatEvent} (he : e.counts key = true) :
    ((s.next e).entries key).sum % 2 ^ 64 = ((s.entries key).sum + (e.stepOf key).getD 0) % 2 ^ 64 := by
  cases e with
  | set t k value | setMax t k value =>
    have hk : k ≠ key := of_decide_eq_true he
    rw [h.sum_other (by simp) rfl hk.symm, StatEvent.stepOf, Option.getD_none, add_zero]
  | incr t k step =>
    by_cases hk : k = key
    · subst hk
      have hsum := h.sum_own (e := .incr t k step) (by simp) rfl
      have hmod := toInt64_emod ((s.entry t).valueAt k + step)
      simp only [StatEvent.stepOf, if_true, Option.getD_some]
      omega
    · rw [h.sum_other (by simp) rfl (Ne.symm hk), StatEvent.stepOf, if_neg hk, Option.getD_none, add_zero]
  | decr t k step =>
    by_cases hk : k = key
    · subst hk
      have hsum := h.sum_own (e := .decr t k step) (by simp) rfl
      have hmod := toInt64_emod ((s.entry t).valueAt k - step)
      simp only [StatEvent.stepOf, if_true, Option.getD_some]
      omega
    · rw [h.sum_other (by simp) rfl (Ne.symm hk), StatEvent.stepOf, if_neg hk, Option.getD_none, add_zero]
  | get _ _ | getSum _ | getMax _ | getAll =>
    rw [h.sum_query (by simp) rfl, StatEvent.stepOf, Option.getD_none, add_zero]
  | destroy => cases he

/-- The sum over the data of all threads follows the calls. -/
theorem Healthy.sum_run (h : Healthy s) {es : List StatEvent} (hes : ∀ e ∈ es, e.counts key = true) :
    ((es.foldl Stat.next s).entries key).sum % 2 ^ 64 =
      ((s.entries key).sum + (stepsOf key es).sum) % 2 ^ 64 := by
  induction es generalizing s with
  | nil => simp only [List.foldl_nil, stepsOf, List.filterMap_nil, List.sum_nil, add_zero]
  | cons e es ih =>
    have he : e.counts key = true := hes e List.mem_cons_self
    have hdestroy : e ≠ .destroy := by
      rintro rfl
      cases he
    have hstep := h.sum_next he
    have hrest := ih (h.next hdestroy) fun e' he' => hes e' (List.mem_cons_of_mem _ he')
    have hsteps : (stepsOf key (e :: es)).sum = (e.stepOf key).getD 0 + (stepsOf key es).sum := by
      simp only [stepsOf, List.sum_filterMap, List.map_cons, List.sum_cons]
    rw [List.foldl_cons, hsteps]
    omega

/-- **No update is lost.** When a key is only counted, `stat_get_sum` is the sum of all steps made by
all threads, reduced to 64 bits; the sum itself when it fits. It does not depend on the order
of the calls or on the threads that make them. -/
theorem sum_of_updates (key : String) (es : List StatEvent) (hes : ∀ e ∈ es, e.counts key = true) :
    ((Stat.after es).statGetSum key).1 = toInt64 (stepsOf key es).sum ∧
      (-2 ^ 63 ≤ (stepsOf key es).sum → (stepsOf key es).sum < 2 ^ 63 →
        ((Stat.after es).statGetSum key).1 = (stepsOf key es).sum) ∧
      ∀ es', (∀ e ∈ es', e.counts key = true) → (stepsOf key es').Perm (stepsOf key es) →
        ((Stat.after es').statGetSum key).1 = ((Stat.after es).statGetSum key).1 := by
  have hvalue : ∀ es, (∀ e ∈ es, StatEvent.counts key e = true) →
      ((Stat.after es).statGetSum key).1 = toInt64 (stepsOf key es).sum := by
    intro es hes
    rw [statGetSum_value]
    have hsum := init_healthy.sum_run hes
    rw [show (Stat.init.entries key).sum = 0 from rfl, zero_add] at hsum
    exact toInt64_congr hsum
  refine ⟨hvalue es hes, fun hlow hhigh => ?_, fun es' hes' hperm => ?_⟩
  · rw [hvalue es hes, toInt64_of_range hlow hhigh]
  · rw [hvalue es hes, hvalue es' hes', hperm.sum_eq]

/-- Two threads count, thread 2 sets another key. -/
def countedRun : List StatEvent := [.incr 0 "k" 3, .set 2 "n" 9, .decr 1 "k" 5, .incr 0 "k" 1, .getSum "n"]

theorem sum_of_updates_counted :
    ((Stat.after countedRun).statGetSum "k").1 = -1 ∧
      ((Stat.after [.incr 7 "k" 1, .incr 7 "k" 3, .decr 7 "k" 5]).statGetSum "k").1 = -1 := by
  have hsum := sum_of_updates "k" countedRun (by decide)
  have hvalue : ((Stat.after countedRun).statGetSum "k").1 = -1 := hsum.2.1 (by decide) (by decide)
  refine ⟨hvalue, ?_⟩
  rw [hsum.2.2 _ (by decide) (by decide)]
  exact hvalue

end Spigeon
