import Spigeon.Spec.Config

/-!
# Which configuration items are handled safely

`sdssplitargs` either returns a vector with `argc` entries, or fails and leaves `argc` at -1.
The clean-up of `parse_conf` counts down from `argc` to 0, so it leaves the vector exactly when
it is entered after a failure: with a key that no command has, or with a handler that accepts an
`argc` of -1.
-/

namespace Spigeon

open CStr

/-- `sdssplitargs` ends at its label `err`. -/
def SplitFails (line : List UInt8) : Prop := ∃ vector, splitArgs [] line = .error vector

theorem freeFrom_of_le {len n : ℕ} (h : n ≤ len) : freeFrom len n = some (-1) := by
  induction n with
  | zero => rfl
  | succ n ih =>
    rw [freeFrom, if_pos (by omega)]
    exact ih (by omega)

/-- A vector with `argc` entries is freed from its last entry to its first. -/
theorem freeArgs_length (argv : List (List UInt8)) : freeArgs argv argv.length = some (-1) := by
  rw [freeArgs, if_neg (by omega), Int.toNat_natCast]
  exact freeFrom_of_le le_rfl

/-- The two ways in which `sdssplitargs` ends. -/
theorem sdssplitargs_cases (line : List UInt8) :
    (¬ SplitFails line ∧ ∃ argv, sdssplitargs line = some (argv.length, argv)) ∨
      (SplitFails line ∧ sdssplitargs line = some (-1, [])) := by
  cases h : splitArgs [] line with
  | ok vector =>
    refine Or.inl ⟨?_, vector, by rw [sdssplitargs, h]⟩
    rintro ⟨v, hv⟩
    rw [h] at hv
    cases hv
  | error vector =>
    refine Or.inr ⟨⟨vector, h⟩, ?_⟩
    simp only [sdssplitargs, h, freeArgs_length, Option.map_some]

section Table

variable {C : Type}

/-- The commands of the table, up to the one without a name. -/
def commands (table : List (Command C)) : List (Command C) := table.takeWhile fun c => c.name ≠ []

theorem findCommand_eq_none_iff {table : List (Command C)} {name : List UInt8} :
    findCommand table name = none ↔ ∀ c ∈ commands table, ¬ caseEq name c.name := by
  induction table with
  | nil => simp [findCommand, commands]
  | cons cp table ih =>
    unfold findCommand commands
    by_cases hend : cp.name = []
    · rw [if_pos hend, List.takeWhile_cons_of_neg (by simpa using hend)]
      simp
    · rw [if_neg hend, List.takeWhile_cons_of_pos (by simpa using hend), List.forall_mem_cons]
      by_cases hname : caseEq name cp.name
      · simp [hname]
      · rw [if_neg hname, ih]
        exact ⟨fun h => ⟨hname, h⟩, fun h => h.2⟩

theorem findCommand_mem {table : List (Command C)} {name : List UInt8} {c : Command C}
    (h : findCommand table name = some c) : c ∈ table := by
  induction table with
  | nil => cases h
  | cons cp table ih =>
    unfold findCommand at h
    split_ifs at h
    · cases h
      exact List.mem_cons_self
    · exact List.mem_cons_of_mem _ (ih h)

/-- `parse_conf` returns. For a key that is not in the table the configuration stays and the result
is `CONFIG_OK`; otherwise the result is `CONFIG_OK` exactly when the handler's is. -/
def ParsesSafely (table : List (Command C)) (name line : List UInt8) (conf : C) : Prop :=
  ∃ conf' r, parseConf table (some name) (some line) conf = some (conf', r) ∧
    ((∀ c ∈ commands table, ¬ caseEq name c.name) → conf' = conf ∧ r = configOk) ∧
    ∀ c, findCommand table name = some c → ∃ argc argv rh,
      sdssplitargs line = some (argc, argv) ∧
        c.handler argc argv c.offset conf = some (conf', rh) ∧ (r = configOk ↔ rh = configOk)

/-- The clean-up is entered after a failure. -/
def CleansUpFailed (table : List (Command C)) (name : List UInt8) (conf : C) : Prop :=
  (∀ c ∈ commands table, ¬ caseEq name c.name) ∨
    ∃ c conf', findCommand table name = some c ∧
      c.handler (-1) [] c.offset conf = some (conf', configOk)

theorem parseConf_unknown {table : List (Command C)} {name line : List UInt8} (conf : C)
    (hno : findCommand table name = none) {argc : ℤ} {argv : List (List UInt8)}
    (hsplit : sdssplitargs line = some (argc, argv)) :
    parseConf table (some name) (some line) conf =
      (freeArgs argv argc).map fun _ => (conf, configOk) := by
  simp only [parseConf, hsplit, Option.bind_some, hno]

theorem parseConf_known {table : List (Command C)} {name line : List UInt8} {conf conf' : C}
    {c : Command C} (hc : findCommand table name = some c) {argc rh : ℤ}
    {argv : List (List UInt8)} (hsplit : sdssplitargs line = some (argc, argv))
    (hrun : c.handler argc argv c.offset conf = some (conf', rh)) :
    parseConf table (some name) (some line) conf =
      if rh ≠ configOk then some (conf', configError)
      else (freeArgs argv argc).map fun _ => (conf', configOk) := by
  simp only [parseConf, hsplit, Option.bind_some, hc, hrun]

/-- A run that reaches its end, given what the clean-up does. -/
theorem parsesSafely_known {table : List (Command C)} {name line : List UInt8} {conf conf' : C}
    {c : Command C} (hc : findCommand table name = some c) {argc rh : ℤ}
    {argv : List (List UInt8)} (hsplit : sdssplitargs line = some (argc, argv))
    (hrun : c.handler argc argv c.offset conf = some (conf', rh))
    (hfree : rh = configOk → freeArgs argv argc ≠ none) : ParsesSafely table name line conf := by
  have hpar := parseConf_known hc hsplit hrun
  have hknown : ¬ ∀ c ∈ commands table, ¬ caseEq name c.name := by
    rw [← findCommand_eq_none_iff, hc]
    exact Option.some_ne_none c
  by_cases hrh : rh = configOk
  · obtain ⟨n, hn⟩ := Option.ne_none_iff_exists'.mp (hfree hrh)
    rw [if_neg (not_not_intro hrh), hn, Option.map_some] at hpar
    refine ⟨conf', configOk, hpar, fun h => absurd h hknown, ?_⟩
    rintro c' hc'
    obtain rfl : c = c' := Option.some.inj (hc.symm.trans hc')
    exact ⟨argc, argv, rh, hsplit, hrun, by rw [hrh]⟩
  · rw [if_pos hrh] at hpar
    refine ⟨conf', configError, hpar, fun h => absurd h hknown, ?_⟩
    rintro c' hc'
    obtain rfl : c = c' := Option.some.inj (hc.symm.trans hc')
    exact ⟨argc, argv, rh, hsplit, hrun, fun h => absurd h (by decide), fun h => absurd h hrh⟩

/-- After a split that succeeds, the clean-up finds every entry it looks for. -/
theorem parsesSafely_of_split (table : List (Command C)) (name : List UInt8) {line : List UInt8}
    (conf : C) (hok : ¬ SplitFails line) : ParsesSafely table name line conf := by
  obtain ⟨argv, hsplit⟩ : ∃ argv, sdssplitargs line = some ((argv.length : ℤ), argv) := by
    rcases sdssplitargs_cases line with ⟨-, h⟩ | ⟨hfail, -⟩
    · exact h
    · exact absurd hfail hok
  cases hc : findCommand table name with
  | none =>
    refine ⟨conf, configOk, ?_, fun _ => ⟨rfl, rfl⟩, fun c hc' => ?_⟩
    · rw [parseConf_unknown conf hc hsplit, freeArgs_length, Option.map_some]
    · rw [hc] at hc'
      cases hc'
  | some c =>
    obtain ⟨⟨conf', rh⟩, hrun⟩ := Option.ne_none_iff_exists'.mp (c.careful argv conf).1
    refine parsesSafely_known hc hsplit hrun fun _ => ?_
    rw [freeArgs_length]
    exact Option.some_ne_none _

/-- After a split that fails, the clean-up starts outside. -/
theorem parsesSafely_failed_iff (table : List (Command C)) (name : List UInt8) {line : List UInt8}
    (conf : C) (hfail : SplitFails line) :
    ParsesSafely table name line conf ↔ ¬ CleansUpFailed table name conf := by
  have hsplit : sdssplitargs line = some (-1, []) := by
    rcases sdssplitargs_cases line with ⟨hok, -⟩ | ⟨-, h⟩
    · exact absurd hfail hok
    · exact h
  have hfree : freeArgs [] (-1) = none := by decide
  cases hc : findCommand table name with
  | none =>
    -- nothing stands between the failure and the clean-up
    have hrun := parseConf_unknown conf hc hsplit
    rw [hfree, Option.map_none] at hrun
    refine ⟨?_, fun h => absurd (Or.inl (findCommand_eq_none_iff.mp hc)) h⟩
    rintro ⟨conf', r, hpar, -⟩
    rw [hrun] at hpar
    cases hpar
  | some c =>
    -- the handler decides whether the clean-up is reached
    obtain ⟨⟨conf', rh⟩, hrun⟩ := Option.ne_none_iff_exists'.mp (c.careful [] conf).2
    constructor
    · rintro ⟨conf'', r, hpar, -, -⟩ (hunknown | ⟨c', conf₂, hc', hrun'⟩)
      · rw [findCommand_eq_none_iff.mpr hunknown] at hc
        cases hc
      · rw [parseConf_known hc' hsplit hrun', if_neg (not_not_intro rfl), hfree] at hpar
        cases hpar
    · intro hno
      refine parsesSafely_known hc hsplit hrun fun hrh => ?_
      subst hrh
      exact absurd (Or.inr ⟨c, conf', hc, hrun⟩) hno

/-- **Configuration items.** For every command table, key and value, `parse_conf` reads and frees
only entries of the argument vector, and does what its table says, exactly unless `sdssplitargs`
fails on the value and the clean-up is entered all the same. -/
theorem parse_conf_iff (table : List (Command C)) (name line : List UInt8) (conf : C) :
    ParsesSafely table name line conf ↔ ¬ (SplitFails line ∧ CleansUpFailed table name conf) := by
  by_cases hfail : SplitFails line
  · rw [parsesSafely_failed_iff table name conf hfail]
    simp [hfail]
  · exact iff_of_true (parsesSafely_of_split table name conf hfail) fun h => hfail h.1

/-- A quote that is not closed, as the value of a key that no command has: the clean-up is entered
with -1. -/
theorem open_quote_leaves_vector :
    sdssplitargs [doubleQuote] = some (-1, []) ∧
      parseConf ([] : List (Command Unit)) (some (bytes "key")) (some [doubleQuote]) () = none ∧
      ¬ ParsesSafely ([] : List (Command Unit)) (bytes "key") [doubleQuote] () := by
  have hsplit : splitArgs [] [doubleQuote] = .error [] := by
    rw [splitArgs]
    rfl
  have hargs : sdssplitargs [doubleQuote] = some (-1, []) := by
    rw [sdssplitargs, hsplit]
    rfl
  have hnone : parseConf ([] : List (Command Unit)) (some (bytes "key")) (some [doubleQuote]) () =
      none := by
    rw [parseConf_unknown () rfl hargs]
    rfl
  refine ⟨hargs, hnone, ?_⟩
  rintro ⟨conf', r, hpar, -⟩
  rw [hnone] at hpar
  cases hpar

end Table

end Spigeon
