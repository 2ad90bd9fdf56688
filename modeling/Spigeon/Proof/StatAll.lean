import Spigeon.Proof.Stat

/-!
# The two ways to aggregate

`stat_get_all` goes over every entry of every thread and collects sums and maxima by key;
`stat_get_sum` and `stat_get_max` go over the threads for one key.

* `statGetAll_entries`: `stat_get_all` entry by entry, in whatever order the maps give them.
* `aggregations_agree`: both give the sum and the maximum of the entries of a key.
-/

namespace Spigeon

open CInt

variable {s : Stat} {key : String}

/-! ## The loop over the entries of a map -/

/-- A map given by its entries. -/
def StatContainer.ofEntries (es : List (String × ℤ)) : StatContainer := fun key => es.lookup key

theorem ofEntries_cons (k : String) (v : ℤ) (es : List (String × ℤ)) (key : String) :
    StatContainer.ofEntries ((k, v) :: es) key = if key = k then some v else StatContainer.ofEntries es key := by
  unfold StatContainer.ofEntries
  rw [List.lookup_cons]
  by_cases hk : key = k
  · rw [if_pos hk, hk, beq_self_eq_true]
  · rw [if_neg hk, beq_false_of_ne hk]

theorem ofEntries_none {es : List (String × ℤ)} {k : String} (hk : k ∉ es.map Prod.fst) :
    StatContainer.ofEntries es k = none := by
  unfold StatContainer.ofEntries
  rw [List.lookup_eq_none_iff]
  intro p hp
  rw [bne_iff_ne]
  rintro rfl
  exact hk (List.mem_map_of_mem hp)

/-- The entry of a key that was looked up is there. -/
theorem touch_self (m : StatContainer) (k : String) : m.touch k k = some (m.valueAt k) := m.assign_self k _

theorem allBody_self (r : StatContainer × StatContainer) (k : String) (v : ℤ) :
    (Stat.allBody r (k, v)).1 k = sumEntry (r.1 k) v ∧ (Stat.allBody r (k, v)).2 k = maxEntry (r.2 k) v := by
  refine ⟨StatContainer.assign_self _ _ _, ?_⟩
  have hfirst : (if r.2 k = none then r.2.assign k v else r.2).valueAt k = (r.2 k).getD v := by
    unfold StatContainer.valueAt
    cases hk : r.2 k with
    | none => rw [if_pos rfl, StatContainer.assign_self]; rfl
    | some u => rw [if_neg (Option.some_ne_none u), hk]; rfl
  unfold Stat.allBody maxEntry
  dsimp only
  rw [hfirst]
  by_cases hlt : (r.2 k).getD v < v
  · rw [if_pos hlt, StatContainer.assign_self, max_eq_right hlt.le]
  · rw [if_neg hlt, touch_self, hfirst, max_eq_left (not_lt.1 hlt)]

theorem allBody_of_ne (r : StatContainer × StatContainer) {k key : String} (v : ℤ) (h : key ≠ k) :
    (Stat.allBody r (k, v)).1 key = r.1 key ∧ (Stat.allBody r (k, v)).2 key = r.2 key := by
  refine ⟨StatContainer.assign_of_ne _ _ h, ?_⟩
  have hfirst : (if r.2 k = none then r.2.assign k v else r.2) key = r.2 key := by
    split
    · exact StatContainer.assign_of_ne _ _ h
    · rfl
  have htouch : ∀ m : StatContainer, m.touch k key = m key := fun m => StatContainer.assign_of_ne _ _ h
  unfold Stat.allBody
  dsimp only
  by_cases hlt : (if r.2 k = none then r.2.assign k v else r.2).valueAt k < v
  · rw [if_pos hlt, StatContainer.assign_of_ne _ _ h, htouch, hfirst]
  · rw [if_neg hlt, htouch, hfirst]

/-- **The loop over one map**, for its entries in any order. -/
theorem allBody_foldl {es : List (String × ℤ)} (hnodup : (es.map Prod.fst).Nodup)
    (r : StatContainer × StatContainer) :
    es.foldl Stat.allBody r =
      (Stat.addSum r.1 (.ofEntries es), Stat.addMax r.2 (.ofEntries es)) := by
  induction es generalizing r with
  | nil => rfl
  | cons e es ih =>
    obtain ⟨k, v⟩ := e
    obtain ⟨hk, hnodup⟩ := List.nodup_cons.1 hnodup
    rw [List.foldl_cons, ih hnodup, Prod.mk.injEq]
    refine ⟨funext fun key => ?_, funext fun key => ?_⟩
    · unfold Stat.addSum
      rw [ofEntries_cons]
      by_cases hkey : key = k
      · subst hkey
        -- the key comes once, so the entries behind it do not touch it
        rw [if_pos rfl, ofEntries_none hk]
        exact (allBody_self r key v).1
      · rw [if_neg hkey, StatContainer.valueAt, (allBody_of_ne r v hkey).1]
        rfl
    · unfold Stat.addMax
      rw [ofEntries_cons]
      by_cases hkey : key = k
      · subst hkey
        rw [if_pos rfl, ofEntries_none hk]
        refine (allBody_self r key v).2.trans ?_
        unfold maxEntry
        dsimp only
        split
        · rename_i hlt
          rw [max_eq_right hlt.le]
        · rename_i hlt
          rw [max_eq_left (not_lt.1 hlt)]
      · rw [if_neg hkey, (allBody_of_ne r v hkey).2]

/-- **The two nested loops of `stat_get_all`**, for maps given by their entries. -/
theorem statGetAll_entries {entries : ℕ → List (String × ℤ)}
    (h : ∀ i ∈ s.list, ((entries i).map Prod.fst).Nodup ∧ s.data i = .ofEntries (entries i)) :
    s.statGetAll.1 =
      s.list.foldl (fun r i => (entries i).foldl Stat.allBody r) (fun _ => none, fun _ => none) := by
  have hloop : ∀ (is : List ℕ) (r : StatContainer × StatContainer) (s : Stat),
      (∀ i ∈ is, ((entries i).map Prod.fst).Nodup ∧ s.data i = .ofEntries (entries i)) →
        (Stat.allLoop is r s).1 = is.foldl (fun r i => (entries i).foldl Stat.allBody r) r := by
    intro is
    induction is with
    | nil => intro r s _; rfl
    | cons i is ih =>
      intro r s h
      obtain ⟨hnodup, hdata⟩ := h i List.mem_cons_self
      rw [Stat.allLoop, access_id, List.foldl_cons, allBody_foldl hnodup, ← hdata]
      exact ih _ _ fun j hj => h j (List.mem_cons_of_mem _ hj)
  exact hloop s.list _ s h

/-! ## Sums and maxima -/

/-- The values of a key over the threads that have it. -/
theorem mem_entries {v : ℤ} : v ∈ s.entries key ↔ ∃ i ∈ s.list, s.data i key = some v := by
  unfold Stat.entries
  exact List.mem_filterMap

theorem foldl_maxEntry (vs : List ℤ) (r : ℤ) : vs.foldl maxEntry (some r) = some (vs.foldl max r) := by
  induction vs generalizing r with
  | nil => rfl
  | cons v vs ih => exact ih (max r v)

/-- The start value of `stat_get_max` is below every entry. -/
theorem foldl_max_start {vs : List ℤ} {v : ℤ} (hv : int64Min ≤ v) :
    (v :: vs).foldl max int64Min = vs.foldl max v := by
  rw [List.foldl_cons, max_eq_right hv]

/-- The values in the maps of the threads are `int64_t`. -/
def Int64Values (s : Stat) : Prop := ∀ i ∈ s.list, ∀ key v, s.data i key = some v → -2 ^ 63 ≤ v ∧ v < 2 ^ 63

theorem statGetMax_isGreatest (h : Int64Values s) (hne : s.entries key ≠ []) :
    s.statGetAll.1.2 key = some (s.statGetMax key).1 ∧
      IsGreatest {v | v ∈ s.entries key} (s.statGetMax key).1 := by
  rw [statGetAll_max, statGetMax_value]
  cases hv : s.entries key with
  | nil => exact absurd hv hne
  | cons v vs =>
    obtain ⟨i, hi, hkey⟩ := mem_entries.1 (show v ∈ s.entries key by rw [hv]; exact List.mem_cons_self)
    have hmin : int64Min ≤ v := (h i hi key v hkey).1
    rw [foldl_max_start hmin]
    refine ⟨?_, List.isGreatest_foldl_max v vs⟩
    rw [List.foldl_cons, show maxEntry none v = some v by unfold maxEntry; rw [Option.getD_none, max_self]]
    exact foldl_maxEntry vs v

/-- Neither result has a key that no thread has. -/
theorem statGetAll_none (hnil : s.entries key = []) :
    s.statGetAll.1.1 key = none ∧ s.statGetAll.1.2 key = none := by
  rw [statGetAll_sum, statGetAll_max, hnil]
  exact ⟨rfl, rfl⟩

/-- **The bulk and the single-key aggregations agree.** For any maps of any number of threads, the keys
of both results of `stat_get_all` are those that some thread has, and the values are what
`stat_get_sum` and `stat_get_max` return in the same state: the sum, where it fits, and the
maximum of the values over the threads that have the key. -/
theorem aggregations_agree (h : Int64Values s) (key : String) :
    ((s.statGetAll.1.1 key).isSome = true ↔ ∃ i ∈ s.list, (s.data i key).isSome = true) ∧
    ((s.statGetAll.1.2 key).isSome = true ↔ ∃ i ∈ s.list, (s.data i key).isSome = true) ∧
    ((∃ i ∈ s.list, (s.data i key).isSome = true) →
      s.statGetAll.1.1 key = some (s.statGetSum key).1 ∧
      s.statGetAll.1.2 key = some (s.statGetMax key).1 ∧
      (-2 ^ 63 ≤ (s.entries key).sum → (s.entries key).sum < 2 ^ 63 →
        (s.statGetSum key).1 = (s.entries key).sum) ∧
      IsGreatest {v | ∃ i ∈ s.list, s.data i key = some v} (s.statGetMax key).1) := by
  have hhas : (∃ i ∈ s.list, (s.data i key).isSome = true) ↔ s.entries key ≠ [] := by
    simp only [Option.isSome_iff_exists]
    constructor
    · rintro ⟨i, hi, v, hv⟩
      exact List.ne_nil_of_mem (mem_entries.2 ⟨i, hi, hv⟩)
    · intro hne
      obtain ⟨v, hv⟩ := List.exists_mem_of_ne_nil _ hne
      obtain ⟨i, hi, hv⟩ := mem_entries.1 hv
      exact ⟨i, hi, v, hv⟩
  have hset : {v | ∃ i ∈ s.list, s.data i key = some v} = {v | v ∈ s.entries key} := by
    ext v
    exact mem_entries.symm
  rw [hhas, hset]
  by_cases hne : s.entries key = []
  · rw [(statGetAll_none hne).1, (statGetAll_none hne).2]
    simp [hne]
  · obtain ⟨hmax, hgreatest⟩ := statGetMax_isGreatest h hne
    have hsum := statGetAll_sum_some hne
    refine ⟨by simp [hsum, hne], by simp [hmax, hne], fun _ => ⟨?_, hmax, ?_, hgreatest⟩⟩
    · rw [hsum, statGetSum_value]
    · intro hlo hhi
      rw [statGetSum_value, toInt64_of_range hlo hhi]

theorem mem_of_ofEntries {es : List (String × ℤ)} {v : ℤ} (h : StatContainer.ofEntries es key = some v) :
    (key, v) ∈ es := by
  induction es with
  | nil => cases h
  | cons e es ih =>
    obtain ⟨k, u⟩ := e
    rw [ofEntries_cons] at h
    split at h
    · rename_i hk
      cases h
      rw [hk]
      exact List.mem_cons_self
    · exact List.mem_cons_of_mem _ (ih h)

/-- A state with one thread for each map. -/
def Stat.ofMaps (maps : List (List (String × ℤ))) : Stat :=
  ⟨fun i => .ofEntries (maps.getD i []), maps.length, List.range maps.length,
    fun t => if t < maps.length then some t else none, []⟩

/-- Two threads with the key `k`, one value of it negative, and a third thread without it. -/
def threeThreads : Stat := .ofMaps [[("k", -5)], [("j", 1), ("k", 3)], [("j", 7)]]

theorem aggregations_agree_threeThreads :
    Int64Values threeThreads ∧ threeThreads.statGetAll.1.1 "k" = some (-2) ∧
      threeThreads.statGetAll.1.2 "k" = some (threeThreads.statGetMax "k").1 ∧
        (threeThreads.statGetMax "k").1 = 3 := by
  have hvalues : Int64Values threeThreads := by
    intro i hi key v hv
    have hentries : ∀ i ∈ threeThreads.list,
        ∀ p ∈ ([[("k", -5)], [("j", 1), ("k", 3)], [("j", 7)]] : List (List (String × ℤ))).getD i [],
          -2 ^ 63 ≤ p.2 ∧ p.2 < 2 ^ 63 := by decide
    exact hentries i hi _ (mem_of_ofEntries hv)
  obtain ⟨hsum, hmax, -, -⟩ := (aggregations_agree hvalues "k").2.2 ⟨0, by decide, by decide⟩
  refine ⟨hvalues, ?_, hmax, by decide +kernel⟩
  rw [hsum]
  decide +kernel

end Spigeon
