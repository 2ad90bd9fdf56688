import Mathlib.Data.List.Perm.Basic
import Mathlib.Order.Lattice
import Spigeon.Lib.Lists
import Spigeon.Lib.Lts
import Spigeon.Spec.Stat

/-!
# The statistics as a table of threads and keys

The data of a thread is found through its pointer, the queries over all threads go through the
list. As long as a thread does not use data that was deleted, both are views of one table: what
each thread has for each key. An update changes one row of the table, the answer to a
query over all threads depends on the entries of one column, in any order.

* `StatOK`, `next_stat_ok`: threads, their data and the list belong together.
* `entry`: the table. `entry_onThreadData`, `entry_statGetSum`, `entry_statDestroy`: what the calls do to it.
* `statGet_value`, `statGetSum_value`, `statGetMax_value`, `statGetAll_sum`, `statGetAll_max`: the answers.
-/

namespace Spigeon

open CInt Lifetime Lts

variable {s : Stat} {ts : List ℕ}

/-! ## Loops -/

namespace StatContainer

theorem assign_self (m : StatContainer) (key : String) (value : ℤ) : m.assign key value key = some value :=
  Function.update_self _ _ _

theorem assign_of_ne (m : StatContainer) {key k : String} (value : ℤ) (h : k ≠ key) :
    m.assign key value k = m k :=
  Function.update_of_ne h _ _

/-- The value of a key goes through a function; the key is there afterwards. -/
def modify (m : StatContainer) (key : String) (g : ℤ → ℤ) : StatContainer := m.assign key (g (m.valueAt key))

theorem modify_self (m : StatContainer) (key : String) (g : ℤ → ℤ) :
    m.modify key g key = some (g (m.valueAt key)) :=
  m.assign_self key _

theorem modify_of_ne (m : StatContainer) {key k : String} (g : ℤ → ℤ) (h : k ≠ key) : m.modify key g k = m k :=
  m.assign_of_ne _ h

theorem valueAt_modify (m : StatContainer) (key k : String) (g : ℤ → ℤ) :
    (m.modify key g).valueAt k = if k = key then g (m.valueAt key) else m.valueAt k := by
  unfold valueAt
  by_cases hk : k = key
  · rw [hk, modify_self, if_pos rfl, Option.getD_some]
    rfl
  · rw [modify_of_ne m g hk, if_neg hk]

/-- Inserting a key does not change values. -/
@[simp] theorem valueAt_touch (m : StatContainer) (key k : String) : (m.touch key).valueAt k = m.valueAt k := by
  refine (m.valueAt_modify key k fun v => v).trans ?_
  split
  · rename_i hk
    rw [hk]
  · rfl

/-- A key that is there is not inserted. -/
theorem touch_eq_self {m : StatContainer} {key k : String} (h : k = key → m k ≠ none) : m.touch key k = m k := by
  by_cases hk : k = key
  · subst hk
    obtain ⟨v, hv⟩ := Option.ne_none_iff_exists'.1 (h rfl)
    refine (m.assign_self k _).trans ?_
    unfold valueAt
    rw [hv, Option.getD_some]
  · exact m.assign_of_ne _ hk

theorem touch_touch (m : StatContainer) (key : String) : (m.touch key).touch key = m.touch key := by
  conv_lhs => rw [touch, valueAt_touch]
  exact Function.update_idem _ _ _

end StatContainer

theorem access_id (s : Stat) (i : ℕ) : s.access i id = { s with acts := s.acts ++ [.use i] } := by
  unfold Stat.access
  rw [id_eq, Function.update_eq_self]

/-- What a pass over the list that inserts a key does. -/
def Stat.touchAll (s : Stat) (key : String) (is : List ℕ) : Stat :=
  { s with
    data := fun i => if i ∈ is then (s.data i).touch key else s.data i
    acts := s.acts ++ is.map .use }

theorem sumLoop_state (key : String) (is : List ℕ) (r : ℤ) (s : Stat) :
    (Stat.sumLoop key is r s).2 = s.touchAll key is := by
  induction is generalizing r s with
  | nil =>
    unfold Stat.touchAll
    simp only [Stat.sumLoop, List.not_mem_nil, if_false, List.map_nil, List.append_nil]
  | cons i is ih =>
    simp only [Stat.sumLoop, ih, Stat.touchAll, Stat.access, List.map_cons, List.append_assoc,
      List.singleton_append, Stat.mk.injEq, and_true]
    funext j
    by_cases hj : j = i
    · subst hj
      simp only [Function.update_self, StatContainer.touch_touch, ite_self, List.mem_cons, true_or, if_true]
    · simp only [Function.update_of_ne hj, List.mem_cons, hj, false_or]

theorem sumLoop_value (key : String) (is : List ℕ) (r : ℤ) (s : Stat) :
    (Stat.sumLoop key is (toInt64 r) s).1 = toInt64 (r + (is.map fun i => (s.data i).valueAt key).sum) := by
  induction is generalizing r s with
  | nil => simp only [Stat.sumLoop, List.map_nil, List.sum_nil, add_zero]
  | cons i is ih =>
    have hsame : ∀ j, ((s.access i fun m => m.touch key).data j).valueAt key = (s.data j).valueAt key := by
      intro j
      by_cases hj : j = i
      · subst hj
        simp only [Stat.access, Function.update_self, StatContainer.valueAt_touch]
      · simp only [Stat.access, Function.update_of_ne hj]
    simp only [Stat.sumLoop, toInt64_add_left, ih, hsame, List.map_cons, List.sum_cons, add_assoc]

theorem maxLoop_eq (key : String) (is : List ℕ) (r : ℤ) (s : Stat) :
    Stat.maxLoop key is r s =
      ((is.filterMap fun i => s.data i key).foldl max r, { s with acts := s.acts ++ is.map .use }) := by
  induction is generalizing r s with
  | nil => simp only [Stat.maxLoop, List.filterMap_nil, List.foldl_nil, List.map_nil, List.append_nil]
  | cons i is ih =>
    simp only [Stat.maxLoop, access_id, ih, List.map_cons, List.append_assoc, List.singleton_append,
      List.filterMap_cons]
    cases s.data i key with
    | none => rfl
    | some v =>
      have hmax : (if v > r then v else r) = max r v := by
        by_cases hv : v > r
        · rw [if_pos hv, max_eq_right hv.le]
        · rw [if_neg hv, max_eq_left (not_lt.1 hv)]
      simp only [hmax, List.foldl_cons]

/-- One entry in the sums of `stat_get_all`. -/
def sumEntry (r : Option ℤ) (v : ℤ) : Option ℤ := some (toInt64 (r.getD 0 + v))

/-- One entry in the maxima of `stat_get_all`. -/
def maxEntry (r : Option ℤ) (v : ℤ) : Option ℤ := some (max (r.getD v) v)

theorem allLoop_eq (is : List ℕ) (r : StatContainer × StatContainer) (s : Stat) :
    Stat.allLoop is r s =
      ((fun key => (is.filterMap fun i => s.data i key).foldl sumEntry (r.1 key),
        fun key => (is.filterMap fun i => s.data i key).foldl maxEntry (r.2 key)),
        { s with acts := s.acts ++ is.map .use }) := by
  induction is generalizing r s with
  | nil => simp only [Stat.allLoop, List.filterMap_nil, List.foldl_nil, List.map_nil, List.append_nil]
  | cons i is ih =>
    simp only [Stat.allLoop, access_id, ih, List.map_cons, List.append_assoc, List.singleton_append,
      Prod.mk.injEq, and_true]
    refine ⟨funext fun key => ?_, funext fun key => ?_⟩
    · simp only [Stat.addSum, List.filterMap_cons]
      cases s.data i key with
      | none => rfl
      | some v => rfl
    · simp only [Stat.addMax, List.filterMap_cons]
      cases s.data i key with
      | none => rfl
      | some v =>
        have hmax : (if (r.2 key).getD v < v then v else (r.2 key).getD v) = max ((r.2 key).getD v) v := by
          by_cases hv : (r.2 key).getD v < v
          · rw [if_pos hv, max_eq_right hv.le]
          · rw [if_neg hv, max_eq_left (not_lt.1 hv)]
        simp only [hmax, List.foldl_cons, maxEntry]

/-! ## Threads and their data -/

namespace Stat

/-- The thread has data in the list. -/
def live (s : Stat) (t : ℕ) : Bool :=
  match s.specific t with
  | some i => decide (i ∈ s.list)
  | none => false

/-- The pointer of the thread leads to data that was deleted. -/
def stale (s : Stat) (t : ℕ) : Bool :=
  match s.specific t with
  | some i => decide (i ∉ s.list)
  | none => false

/-- What is behind a pointer, nothing for data that was deleted. -/
def contents (s : Stat) : Option ℕ → StatContainer
  | some i => if i ∈ s.list then s.data i else fun _ => none
  | none => fun _ => none

/-- The row of a thread. -/
def entry (s : Stat) (t : ℕ) : StatContainer := s.contents (s.specific t)

/-- The entries of a key, in the order of the list. -/
def entries (s : Stat) (key : String) : List ℤ := s.list.filterMap fun i => s.data i key

end Stat

/-- `ts` are the threads whose data is in the list. -/
structure StatOK (s : Stat) (ts : List ℕ) : Prop where
  owners : ts.map s.specific = s.list.map some
  nodup : s.list.Nodup
  inj : ∀ t t' i, s.specific t = some i → s.specific t' = some i → t = t'
  made : ∀ t i, s.specific t = some i → i < s.created
  dropped : ∀ i, Act.drop i ∈ s.acts ↔ i < s.created ∧ i ∉ s.list

theorem StatOK.owner (h : StatOK s ts) {i : ℕ} (hi : i ∈ s.list) : ∃ t ∈ ts, s.specific t = some i := by
  have hmem : some i ∈ ts.map s.specific := by
    rw [h.owners]
    exact List.mem_map_of_mem hi
  exact List.mem_map.1 hmem

theorem StatOK.list_made (h : StatOK s ts) {i : ℕ} (hi : i ∈ s.list) : i < s.created := by
  obtain ⟨t, -, ht⟩ := h.owner hi
  exact h.made t i ht

theorem StatOK.fresh (h : StatOK s ts) : s.created ∉ s.list := fun hmem => absurd (h.list_made hmem) (lt_irrefl _)

theorem StatOK.threads_nodup (h : StatOK s ts) : ts.Nodup := by
  have hmap : (ts.map s.specific).Nodup := by
    rw [h.owners]
    exact h.nodup.map (Option.some_injective ℕ)
  exact hmap.of_map s.specific

theorem entry_of_live {t i : ℕ} (ht : s.specific t = some i) (hi : i ∈ s.list) : s.entry t = s.data i := by
  unfold Stat.entry
  rw [ht]
  exact if_pos hi

theorem entry_of_none {t : ℕ} (ht : s.specific t = none) : s.entry t = fun _ => none := by
  unfold Stat.entry
  rw [ht]
  rfl

theorem entry_of_stale {t i : ℕ} (ht : s.specific t = some i) (hi : i ∉ s.list) : s.entry t = fun _ => none := by
  unfold Stat.entry
  rw [ht]
  exact if_neg hi

theorem live_iff {t : ℕ} : s.live t = true ↔ ∃ i, s.specific t = some i ∧ i ∈ s.list := by
  unfold Stat.live
  cases s.specific t with
  | none => simp
  | some i => simp

/-- A thread with an entry is one of those in the list. -/
theorem StatOK.thread_of_entry (h : StatOK s ts) {t : ℕ} {key : String} (hentry : s.entry t key ≠ none) :
    t ∈ ts := by
  cases ht : s.specific t with
  | none =>
    rw [entry_of_none ht] at hentry
    exact absurd rfl hentry
  | some i =>
    by_cases hi : i ∈ s.list
    · obtain ⟨t', hmem, ht'⟩ := h.owner hi
      rw [h.inj t t' i ht ht']
      exact hmem
    · rw [entry_of_stale ht hi] at hentry
      exact absurd rfl hentry

/-- The rows of the threads are the maps in the list. -/
theorem StatOK.rows (h : StatOK s ts) : ts.map s.entry = s.list.map s.data := by
  have hrows : ts.map s.entry = (ts.map s.specific).map s.contents := by
    rw [List.map_map]
    rfl
  rw [hrows, h.owners, List.map_map]
  refine List.map_congr_left fun i hi => ?_
  exact if_pos hi

/-- **A column of the table.** -/
theorem StatOK.entries_eq (h : StatOK s ts) (key : String) :
    s.entries key = ts.filterMap fun t => s.entry t key := by
  have hlist : s.entries key = (s.list.map s.data).filterMap fun m => m key := by
    rw [List.filterMap_map]
    rfl
  rw [hlist, ← h.rows, List.filterMap_map]
  rfl

/-! ## Calls on the data of a thread -/

theorem getThreadData_some {t i : ℕ} (ht : s.specific t = some i) : s.getThreadData t = (i, s) := by
  unfold Stat.getThreadData
  rw [ht]

theorem getThreadData_none {t : ℕ} (ht : s.specific t = none) :
    s.getThreadData t = (s.created, s.initThreadData t) := by
  unfold Stat.getThreadData
  rw [ht]

theorem StatOK.initThreadData (h : StatOK s ts) {t : ℕ} (ht : s.specific t = none) :
    StatOK (s.initThreadData t) (ts ++ [t]) := by
  have hts : t ∉ ts := by
    intro hmem
    have hsome : s.specific t ∈ s.list.map some := h.owners ▸ List.mem_map_of_mem hmem
    rw [ht] at hsome
    simp at hsome
  have hold : ts.map (Function.update s.specific t (some s.created)) = ts.map s.specific := by
    refine List.map_congr_left fun t' ht' => Function.update_of_ne ?_ _ _
    rintro rfl
    exact hts ht'
  refine ⟨?_, ?_, ?_, ?_, ?_⟩
  · simp only [Stat.initThreadData, List.map_append, List.map_cons, List.map_nil, Function.update_self, hold,
      h.owners]
  · exact List.nodup_append.2 ⟨h.nodup, List.nodup_singleton _, fun i hi j hj hij => h.fresh (by
      rw [List.mem_singleton.1 hj] at hij
      exact hij ▸ hi)⟩
  · intro t1 t2 i h1 h2
    simp only [Stat.initThreadData, Function.update_apply] at h1 h2
    -- the identity of the new data is that of no other thread
    split at h1 <;> split at h2
    · simp_all
    · cases h1
      exact absurd (h.made t2 _ h2) (lt_irrefl _)
    · cases h2
      exact absurd (h.made t1 _ h1) (lt_irrefl _)
    · exact h.inj t1 t2 i h1 h2
  · intro t' i hi
    simp only [Stat.initThreadData, Function.update_apply] at hi ⊢
    split at hi
    · cases hi
      omega
    · have := h.made t' i hi
      omega
  · intro i
    have hdrop := h.dropped i
    simp only [Stat.initThreadData, List.mem_append, List.mem_singleton]
    rw [hdrop]
    constructor
    · rintro ⟨hlt, hi⟩
      exact ⟨by omega, fun hor => hor.elim hi fun he => by omega⟩
    · rintro ⟨hlt, hi⟩
      exact ⟨by
        have : i ≠ s.created := fun he => hi (.inr he)
        omega, fun hmem => hi (.inl hmem)⟩

/-- Accesses leave threads and list as they are. -/
theorem StatOK.of_uses (h : StatOK s ts) {s' : Stat} (is : List ℕ) (hacts : s'.acts = s.acts ++ is.map .use)
    (hlist : s'.list = s.list) (hspecific : s'.specific = s.specific) (hcreated : s'.created = s.created) :
    StatOK s' ts := by
  refine ⟨?_, ?_, ?_, ?_, fun i => ?_⟩
  · rw [hspecific, hlist]
    exact h.owners
  · rw [hlist]
    exact h.nodup
  · rw [hspecific]
    exact h.inj
  · rw [hspecific, hcreated]
    exact h.made
  · rw [hacts, hcreated, hlist, ← h.dropped i, List.mem_append]
    refine or_iff_left fun hmem => ?_
    obtain ⟨j, -, hj⟩ := List.mem_map.1 hmem
    cases hj

theorem StatOK.access (h : StatOK s ts) (i : ℕ) (f : StatContainer → StatContainer) : StatOK (s.access i f) ts :=
  h.of_uses [i] rfl rfl rfl rfl

theorem StatOK.onThreadData (h : StatOK s ts) (t : ℕ) (f : StatContainer → StatContainer) :
    ∃ ts', StatOK (s.onThreadData t f) ts' := by
  unfold Stat.onThreadData
  cases ht : s.specific t with
  | none =>
    rw [getThreadData_none ht]
    exact ⟨ts ++ [t], (h.initThreadData ht).access _ f⟩
  | some i =>
    rw [getThreadData_some ht]
    exact ⟨ts, h.access i f⟩

/-- A thread that comes in brings an empty row. -/
theorem entry_initThreadData (h : StatOK s ts) {t : ℕ} (ht : s.specific t = none) :
    (s.initThreadData t).entry = s.entry := by
  funext t'
  by_cases htt : t' = t
  · rw [htt, entry_of_none ht]
    have hnew : (s.initThreadData t).specific t = some s.created := Function.update_self _ _ _
    rw [entry_of_live hnew (List.mem_append_right _ List.mem_cons_self)]
    exact Function.update_self _ _ _
  · have hsame : (s.initThreadData t).specific t' = s.specific t' := Function.update_of_ne htt _ _
    unfold Stat.entry
    rw [hsame]
    cases ht' : s.specific t' with
    | none => rfl
    | some i =>
      have hne : i ≠ s.created := (h.made t' i ht').ne
      have hmem : i ∈ s.list ++ [s.created] ↔ i ∈ s.list := by
        rw [List.mem_append, List.mem_singleton]
        exact or_iff_left hne
      simp only [Stat.contents, Stat.initThreadData, Function.update_of_ne hne, if_congr hmem rfl rfl]

theorem entry_access (h : StatOK s ts) {t i : ℕ} (ht : s.specific t = some i) (hi : i ∈ s.list)
    (f : StatContainer → StatContainer) : (s.access i f).entry = Function.update s.entry t (f (s.entry t)) := by
  funext t'
  by_cases htt : t' = t
  · subst htt
    have hlive : (s.access i f).entry t' = (s.access i f).data i := entry_of_live ht hi
    rw [hlive, Function.update_self, entry_of_live ht hi]
    exact Function.update_self _ _ _
  · rw [Function.update_of_ne htt]
    unfold Stat.entry
    cases ht' : s.specific t' with
    | none => simp only [Stat.access, ht', Stat.contents]
    | some j =>
      have hji : j ≠ i := fun he => htt (h.inj t' t i (he ▸ ht') ht)
      simp only [Stat.access, ht', Stat.contents, Function.update_of_ne hji]

theorem stale_eq_false {t i : ℕ} (hstale : s.stale t = false) (ht : s.specific t = some i) : i ∈ s.list := by
  simp only [Stat.stale, ht, decide_eq_false_iff_not, not_not] at hstale
  exact hstale

/-- **A call changes the row of its thread.** -/
theorem entry_onThreadData (h : StatOK s ts) {t : ℕ} (hstale : s.stale t = false)
    (f : StatContainer → StatContainer) :
    (s.onThreadData t f).entry = Function.update s.entry t (f (s.entry t)) := by
  unfold Stat.onThreadData
  cases ht : s.specific t with
  | none =>
    have hnew : (s.initThreadData t).specific t = some s.created := Function.update_self _ _ _
    rw [getThreadData_none ht,
      entry_access (h.initThreadData ht) hnew (List.mem_append_right _ List.mem_cons_self) f,
      entry_initThreadData h ht]
  | some i =>
    rw [getThreadData_some ht]
    exact entry_access h ht (stale_eq_false hstale ht) f

/-- Calls make no data stale. -/
theorem stale_onThreadData (h : StatOK s ts) (t : ℕ) (f : StatContainer → StatContainer) (t' : ℕ) :
    (s.onThreadData t f).stale t' = s.stale t' := by
  unfold Stat.onThreadData
  cases ht : s.specific t with
  | some i =>
    rw [getThreadData_some ht]
    rfl
  | none =>
    rw [getThreadData_none ht]
    unfold Stat.stale
    by_cases htt : t' = t
    · simp [Stat.access, Stat.initThreadData, htt, ht]
    · simp only [Stat.access, Stat.initThreadData, Function.update_of_ne htt]
      cases ht' : s.specific t' with
      | none => rfl
      | some i =>
        have hne : i ≠ s.created := (h.made t' i ht').ne
        simp [hne]

/-! ## Calls on all data -/

theorem entry_touchAll (s : Stat) (key : String) (t : ℕ) :
    (s.touchAll key s.list).entry t = if s.live t then (s.entry t).touch key else s.entry t := by
  unfold Stat.live
  cases ht : s.specific t with
  | none =>
    rw [if_neg Bool.false_ne_true]
    unfold Stat.entry
    simp only [Stat.touchAll, ht, Stat.contents]
  | some i =>
    by_cases hi : i ∈ s.list
    · simp only [decide_eq_true hi, if_true, entry_of_live ht hi]
      exact (entry_of_live (s := s.touchAll key s.list) ht hi).trans (if_pos hi)
    · simp only [decide_eq_false hi, Bool.false_eq_true, if_false, entry_of_stale ht hi]
      exact entry_of_stale (s := s.touchAll key s.list) ht hi

theorem statGetSum_state (s : Stat) (key : String) : (s.statGetSum key).2 = s.touchAll key s.list :=
  sumLoop_state key s.list 0 s

theorem statGetMax_state (s : Stat) (key : String) :
    (s.statGetMax key).2 = { s with acts := s.acts ++ s.list.map .use } := by
  unfold Stat.statGetMax
  rw [maxLoop_eq]

theorem statGetAll_state (s : Stat) : s.statGetAll.2 = { s with acts := s.acts ++ s.list.map .use } := by
  unfold Stat.statGetAll
  rw [allLoop_eq]

theorem StatOK.statDestroy (h : StatOK s ts) : StatOK s.statDestroy [] := by
  refine ⟨rfl, List.nodup_nil, h.inj, h.made, fun i => ?_⟩
  have hdrop : Act.drop i ∈ s.list.map Act.drop ↔ i ∈ s.list := by
    simp only [List.mem_map, Act.drop.injEq, exists_eq_right]
  simp only [Stat.statDestroy, List.mem_append, h.dropped i, hdrop, List.not_mem_nil, not_false_eq_true, and_true]
  constructor
  · rintro (⟨hlt, -⟩ | hi)
    · exact hlt
    · exact h.list_made hi
  · intro hlt
    by_cases hi : i ∈ s.list
    · exact .inr hi
    · exact .inl ⟨hlt, hi⟩

theorem entry_statDestroy (s : Stat) (t : ℕ) : s.statDestroy.entry t = fun _ => none := by
  cases ht : s.specific t with
  | none => exact entry_of_none (s := s.statDestroy) ht
  | some i => exact entry_of_stale (s := s.statDestroy) ht List.not_mem_nil

/-- The calls on the data of a thread: each reads the value of a key and writes another one. -/
def StatEvent.own : StatEvent → Option (ℕ × String × (ℤ → ℤ))
  | .set t key value => some (t, key, fun _ => value)
  | .setMax t key value => some (t, key, fun v => if value > v then value else v)
  | .incr t key step => some (t, key, fun v => toInt64 (v + step))
  | .decr t key step => some (t, key, fun v => toInt64 (v - step))
  | .get t key => some (t, key, fun v => v)
  | .getSum _ | .getMax _ | .getAll | .destroy => none

/-- All that a call can do. -/
inductive StatMove (s : Stat) (e : StatEvent) (s' : Stat) : Prop where
  | own (t : ℕ) (key : String) (g : ℤ → ℤ) (he : e.own = some (t, key, g))
      (hs : s' = s.onThreadData t fun m => m.modify key g)
  | touch (key : String) (he : e = .getSum key) (hs : s' = s.touchAll key s.list)
  | look (he : e = .getAll ∨ ∃ key, e = .getMax key) (hs : s' = { s with acts := s.acts ++ s.list.map .use })
  | destroy (he : e = .destroy) (hs : s' = s.statDestroy)

theorem next_moves (s : Stat) (e : StatEvent) : StatMove s e (s.next e) := by
  cases e with
  | set t key value | incr t key step | decr t key step | get t key => exact .own t key _ rfl rfl
  | setMax t key value =>
    have hset : (fun m : StatContainer =>
        if value > m.valueAt key then (m.touch key).assign key value else m.touch key) =
          fun m => m.modify key fun v => if value > v then value else v := by
      funext m
      unfold StatContainer.modify StatContainer.touch StatContainer.assign
      by_cases hv : value > m.valueAt key
      · simp only [if_pos hv, Function.update_idem]
      · simp only [if_neg hv]
    exact .own t key _ rfl (congrArg (s.onThreadData t) hset)
  | getSum key => exact .touch key rfl (statGetSum_state s key)
  | getMax key => exact .look (.inr ⟨key, rfl⟩) (statGetMax_state s key)
  | getAll => exact .look (.inl rfl) (statGetAll_state s)
  | destroy => exact .destroy rfl rfl

theorem next_own {e : StatEvent} {t : ℕ} {key : String} {g : ℤ → ℤ} (he : e.own = some (t, key, g)) :
    s.next e = s.onThreadData t fun m => m.modify key g := by
  cases next_moves s e with
  | own t' key' g' he' hs =>
    cases he.symm.trans he'
    exact hs
  | touch k hk _ =>
    subst hk
    cases he
  | look hl _ =>
    rcases hl with rfl | ⟨k, rfl⟩ <;> cases he
  | destroy hd _ =>
    subst hd
    cases he

/-- **Threads, data and list belong together in every state.** -/
theorem next_stat_ok (h : ∃ ts, StatOK s ts) (e : StatEvent) : ∃ ts, StatOK (s.next e) ts := by
  obtain ⟨ts, h⟩ := h
  cases next_moves s e with
  | own t key g _ hs => exact hs ▸ h.onThreadData t _
  | touch key _ hs => exact ⟨ts, hs ▸ h.of_uses s.list rfl rfl rfl rfl⟩
  | look _ hs => exact ⟨ts, hs ▸ h.of_uses s.list rfl rfl rfl rfl⟩
  | destroy _ hs => exact ⟨[], hs ▸ h.statDestroy⟩

theorem init_stat_ok : StatOK Stat.init [] := by
  refine ⟨rfl, List.nodup_nil, ?_, ?_, ?_⟩
  · intro t t' i hi
    cases hi
  · intro t i hi
    cases hi
  · intro i
    simp [Stat.init]

/-! ## Answers -/

theorem statGet_value (h : StatOK s ts) {t : ℕ} (hstale : s.stale t = false) (key : String) :
    (s.statGet t key).1 = (s.entry t).valueAt key := by
  unfold Stat.statGet
  cases ht : s.specific t with
  | none =>
    have hnew : (s.initThreadData t).specific t = some s.created := Function.update_self _ _ _
    rw [getThreadData_none ht, ← entry_initThreadData h ht,
      entry_of_live hnew (List.mem_append_right _ List.mem_cons_self)]
  | some i =>
    rw [getThreadData_some ht, entry_of_live ht (stale_eq_false hstale ht)]

theorem statGetSum_value (s : Stat) (key : String) : (s.statGetSum key).1 = toInt64 (s.entries key).sum := by
  have hzero : (0 : ℤ) = toInt64 0 := by decide
  unfold Stat.statGetSum Stat.entries
  rw [hzero, sumLoop_value, zero_add, List.sum_filterMap]
  rfl

theorem statGetMax_value (s : Stat) (key : String) :
    (s.statGetMax key).1 = (s.entries key).foldl max int64Min := by
  unfold Stat.statGetMax
  rw [maxLoop_eq]
  rfl

theorem statGetAll_sum (s : Stat) (key : String) :
    s.statGetAll.1.1 key = (s.entries key).foldl sumEntry none := by
  unfold Stat.statGetAll
  rw [allLoop_eq]
  rfl

theorem statGetAll_max (s : Stat) (key : String) :
    s.statGetAll.1.2 key = (s.entries key).foldl maxEntry none := by
  unfold Stat.statGetAll
  rw [allLoop_eq]
  rfl

theorem foldl_sumEntry (vs : List ℤ) (r : ℤ) :
    vs.foldl sumEntry (some (toInt64 r)) = some (toInt64 (r + vs.sum)) := by
  induction vs generalizing r with
  | nil => simp
  | cons v vs ih =>
    simp only [List.foldl_cons, sumEntry, Option.getD_some, toInt64_add_left, List.sum_cons, ← add_assoc]
    exact ih (r + v)

theorem statGetAll_sum_some {key : String} (hne : s.entries key ≠ []) :
    s.statGetAll.1.1 key = some (toInt64 (s.entries key).sum) := by
  rw [statGetAll_sum]
  cases hv : s.entries key with
  | nil => exact absurd hv hne
  | cons v vs =>
    simp only [List.foldl_cons, sumEntry, Option.getD_none, zero_add, List.sum_cons]
    exact foldl_sumEntry vs v

end Spigeon
