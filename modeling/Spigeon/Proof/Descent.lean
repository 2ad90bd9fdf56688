import Spigeon.Proof.Path
import Spigeon.Spec.Dirs

/-!
# When `create_parent_dir` stops

Each call passes on `dirname` of its path. The string does not get shorter, but the number of its
slashes goes down, until the directory is `/` or `.`, and `.` is its own `dirname`. What the system
calls answer is arbitrary at each depth, but for `/`, which exists.

* `dirname_cases`: what one step does to the path.
* `rooted_ends`: from a path that starts with a slash, there are no more calls than it has slashes.
* `parent_calls_end_iff`: the recursion ends exactly if the path is absolute or one of the directories
  on the way is found.
-/

namespace Spigeon

open CInt CStr

/-! ## The backward scans -/

variable {p : UInt8 → Bool} {s : List UInt8} {lo : ℕ}

/-- Where a scan stops. -/
theorem backWhile_spec (p : UInt8 → Bool) (s : List UInt8) (lo n : ℕ) :
    (lo : ℤ) - 1 ≤ backWhile p s lo n ∧ backWhile p s lo n < lo + n ∧
      (∀ i : ℕ, backWhile p s lo n < i → i < lo + n → p (s.getD i 0) = true) ∧
      ∀ i : ℕ, backWhile p s lo n = i → lo ≤ i → p (s.getD i 0) = false := by
  induction n with
  | zero =>
    refine ⟨le_refl _, ?_, ?_, ?_⟩
    · rw [backWhile]; omega
    · intro i hi hlt
      rw [backWhile] at hi
      omega
    · intro i hi hle
      rw [backWhile] at hi
      omega
  | succ n ih =>
    rw [backWhile]
    split
    · rename_i hp
      obtain ⟨hlo, hlt, hall, hstop⟩ := ih
      refine ⟨hlo, by omega, ?_, hstop⟩
      intro i hi hin
      by_cases hi' : i = lo + n
      · rw [hi']
        exact hp
      · exact hall i hi (by omega)
    · rename_i hp
      refine ⟨by omega, by omega, by intro i hi hin; omega, ?_⟩
      intro i hi _
      have hin : i = lo + n := by omega
      rw [hin]
      exact Bool.eq_false_iff.mpr hp

theorem skipBack_spec (p : UInt8 → Bool) (s : List UInt8) {lo : ℕ} {last : ℤ} (h : (lo : ℤ) ≤ last + 1) :
    (lo : ℤ) - 1 ≤ skipBack p s lo last ∧ skipBack p s lo last ≤ last ∧
      (∀ i : ℕ, skipBack p s lo last < i → i ≤ last → p (s.getD i 0) = true) ∧
      ∀ i : ℕ, skipBack p s lo last = i → lo ≤ i → p (s.getD i 0) = false := by
  unfold skipBack
  split
  · refine ⟨by omega, le_refl _, by intro i hi hle; omega, by intro i hi hle; omega⟩
  · have hspec := backWhile_spec p s lo (last + 1 - lo).toNat
    obtain ⟨hlo, hlt, hall, hstop⟩ := hspec
    refine ⟨hlo, by omega, ?_, hstop⟩
    intro i hi hle
    exact hall i hi (by omega)

/-! ## One step -/

theorem count_putNul_le (l : List UInt8) (i : ℕ) : (l.set i 0).count slash ≤ l.count slash := by
  by_cases hi : i < l.length
  · rw [List.count_set hi, if_neg (by decide : ¬ ((0 : UInt8) == slash) = true)]
    omega
  · rw [List.set_eq_of_length_le (Nat.le_of_not_lt hi)]

/-- A slash that is overwritten. -/
theorem count_putNul_lt {l : List UInt8} {i : ℕ} (h : l.getD i 0 = slash) :
    (l.set i 0).count slash < l.count slash := by
  have hi : i < l.length := by
    by_contra hge
    rw [List.getD_eq_getElem?_getD, List.getElem?_eq_none (Nat.le_of_not_lt hge)] at h
    exact absurd h (by decide)
  rw [List.getD_eq_getElem?_getD, List.getElem?_eq_getElem hi, Option.getD_some] at h
  have hmem : slash ∈ l := h ▸ List.getElem_mem hi
  have hpos : 0 < l.count slash := List.count_pos_iff.mpr hmem
  rw [List.count_set hi, if_pos (beq_iff_eq.mpr h), if_neg (by decide : ¬ ((0 : UInt8) == slash) = true)]
  omega

theorem head?_set_succ (l : List UInt8) (i : ℕ) (b : UInt8) : (l.set (i + 1) b).head? = l.head? := by
  cases l <;> rfl

/-- The path is empty or starts with a slash. -/
def Rooted (path : List UInt8) : Prop := ∀ b ∈ path.head?, b = slash

theorem putNul_some {l l' : List UInt8} {i : ℤ} (h : putNul l i = some l') : 0 ≤ i ∧ l' = l.set i.toNat 0 := by
  unfold putNul at h
  split_ifs at h with hi
  cases h
  exact ⟨hi.1, rfl⟩

/-- A scan that starts before its range does not move. -/
theorem skipBack_of_lt {last : ℤ} (h : last < lo) : skipBack p s lo last = last := if_pos h

/-- The end of `dirname` for a slash at a later place than the first. -/
theorem cut_slashes {l : List UInt8} {i : ℕ} (hi : 0 < i) (hslash : l.getD i 0 = slash) {parent : List UInt8}
    (h : dropLastSlash l i false = some parent) :
    parent.head? = l.head? ∧ parent.count slash < l.count slash := by
  have hspec := skipBack_spec (· = slash) l (by omega : ((1 : ℕ) : ℤ) ≤ (i : ℤ) + 1)
  obtain ⟨hlo, hle, hall, hstop⟩ := hspec
  obtain ⟨hpos, rfl⟩ := putNul_some h
  obtain ⟨j, hj⟩ := Int.eq_ofNat_of_zero_le (by omega : 0 ≤ skipBack (· = slash) l 1 i)
  rw [hj] at hle hall hstop ⊢
  have hnext : ((j : ℤ) + 1).toNat = j + 1 := by omega
  rw [hnext]
  refine ⟨head?_set_succ l j 0, count_putNul_lt ?_⟩
  -- the scan passes the last slash, so it stops behind another one
  have hlt : j < i := by
    rcases Nat.lt_or_ge j i with hlt | hge
    · exact hlt
    · have hji : j = i := by omega
      have hfalse := hstop i (by rw [hji]) hi
      rw [hslash] at hfalse
      exact absurd hfalse (by decide)
  exact of_decide_eq_true (hall (j + 1) (by omega) (by omega))

/-- **What `dirname` makes of a path.** It is the root, or `.`, or starts as the path does and has fewer
slashes. -/
theorem dirname_cases {path parent : List UInt8} (h : dirname path false = some parent) :
    cStr parent = [slash] ∨ (parent = [dot, 0] ∧ ¬ Rooted path) ∨
      (parent.head? = path.head? ∧ parent.count slash < path.count slash) := by
  unfold dirname at h
  dsimp only at h
  generalize hfirst : skipBack (· = slash) path 0 (toInt ((path.length : ℤ) - 1)) = first at h
  split_ifs at h with hslashes hhere
  · cases h
    exact Or.inl rfl
  · -- no slash before the name
    cases h
    refine Or.inr (Or.inl ⟨rfl, ?_⟩)
    intro hroot
    have hnn : 0 ≤ first := by
      by_contra hneg
      rw [skipBack_of_lt (by omega)] at hhere
      exact hslashes hhere
    obtain ⟨-, -, hall, -⟩ := skipBack_spec (· ≠ slash) path (by omega : ((0 : ℕ) : ℤ) ≤ first + 1)
    have hhead := hall 0 (by omega) (by omega)
    cases path with
    | nil =>
      have hempty : first = -1 := hfirst.symm.trans (by decide)
      exact hslashes hempty
    | cons b rest =>
      have hb : b = slash := hroot b rfl
      rw [hb] at hhead
      exact of_decide_eq_true hhead rfl
  · generalize hlast : skipBack (· ≠ slash) path 0 first = last at h hhere
    obtain ⟨cut, hcut, h⟩ := Option.bind_eq_some_iff.mp h
    obtain ⟨hpos, rfl⟩ := putNul_some hcut
    obtain ⟨i, rfl⟩ := Int.eq_ofNat_of_zero_le (by omega : 0 ≤ last)
    have hnn : 0 ≤ first := by
      by_contra hneg
      rw [skipBack_of_lt (by omega)] at hlast
      omega
    obtain ⟨-, -, -, hstop⟩ := skipBack_spec (· ≠ slash) path (by omega : ((0 : ℕ) : ℤ) ≤ first + 1)
    have hslash : path.getD i 0 = slash := by
      have hfalse := hstop i hlast (Nat.zero_le i)
      simpa using hfalse
    have hnext : ((i : ℤ) + 1).toNat = i + 1 := by omega
    rw [hnext] at h
    rcases Nat.eq_zero_or_pos i with rfl | hi
    · -- the slash of the root
      left
      obtain ⟨-, rfl⟩ := putNul_some h
      rw [skipBack_of_lt (by omega)]
      cases path with
      | nil => exact absurd hslash (by decide)
      | cons b rest =>
        have hb : b = slash := hslash
        rw [hb]
        cases rest <;> rfl
    · right; right
      have hkept : (path.set (i + 1) 0).getD i 0 = slash := by
        rw [List.getD_eq_getElem?_getD, List.getElem?_set_ne (by omega), ← List.getD_eq_getElem?_getD]
        exact hslash
      obtain ⟨hhead, hcount⟩ := cut_slashes hi hkept h
      exact ⟨hhead.trans (head?_set_succ path i 0), lt_of_lt_of_le hcount (count_putNul_le path (i + 1))⟩

/-! ## The recursion -/

/-- The directory `n` levels up, as `dirname` gives it, `none` once it is undefined. -/
def ancestor : ℕ → List UInt8 → Option (List UInt8)
  | 0, path => some path
  | n + 1, path => (dirname path false).bind (ancestor n)

/-- The call at depth `n` finds the parent of its path. -/
def FoundAt (answer : ℕ → List UInt8 → DirAnswer) (path : List UInt8) (n : ℕ) : Prop :=
  ∃ parent, ancestor (n + 1) path = some parent ∧ answer n (cStr parent) ≠ .missing

variable {answer : ℕ → List UInt8 → DirAnswer} {path parent : List UInt8}

theorem ancestor_succ (hdir : dirname path false = some parent) (n : ℕ) :
    ancestor (n + 1) path = ancestor n parent := by
  rw [ancestor, hdir, Option.bind_some]

theorem foundAt_succ (hdir : dirname path false = some parent) (n : ℕ) :
    FoundAt answer path (n + 1) ↔ FoundAt (fun d => answer (d + 1)) parent n := by
  unfold FoundAt
  rw [ancestor_succ hdir]

/-- **There is a call at depth `n`** exactly if `dirname` is defined up to there and no directory on the way
is found. -/
theorem parentCall_eq_some_iff (n : ℕ) {q : List UInt8} :
    parentCall n answer path = some q ↔ ancestor n path = some q ∧ ∀ m < n, ¬ FoundAt answer path m := by
  induction n generalizing answer path with
  | zero =>
    refine ⟨fun h => ⟨h, ?_⟩, fun h => h.1⟩
    intro m hm
    cases hm
  | succ n ih =>
    rw [parentCall]
    cases hdir : dirname path false with
    | none =>
      rw [ancestor, hdir]
      simp
    | some parent =>
      have hzero : FoundAt answer path 0 ↔ answer 0 (cStr parent) ≠ .missing := by
        unfold FoundAt
        rw [ancestor_succ hdir]
        simp [ancestor]
      rw [Option.bind_some, ancestor_succ hdir]
      split
      · rename_i hmissing
        rw [ih]
        refine and_congr_right fun _ => ?_
        constructor
        · intro h m hm
          cases m with
          | zero => rw [hzero]; exact not_not.mpr hmissing
          | succ m => rw [foundAt_succ hdir]; exact h m (by omega)
        · intro h m hm
          rw [← foundAt_succ hdir]
          exact h (m + 1) (by omega)
      · rename_i hfound
        refine iff_of_false (by simp) ?_
        rintro ⟨-, hnot⟩
        exact hnot 0 (by omega) (hzero.mpr hfound)

/-- The recursion ends exactly if `dirname` is undefined or a directory is found at some depth. -/
theorem parentCall_ends_iff :
    (∃ n, parentCall n answer path = none) ↔ (∃ n, ancestor n path = none) ∨ ∃ n, FoundAt answer path n := by
  constructor
  · rintro ⟨n, hn⟩
    by_contra hnot
    rw [not_or, not_exists, not_exists] at hnot
    obtain ⟨q, hq⟩ := Option.ne_none_iff_exists'.mp (hnot.1 n)
    have hcall : parentCall n answer path = some q := (parentCall_eq_some_iff n).mpr ⟨hq, fun m _ => hnot.2 m⟩
    rw [hn] at hcall
    cases hcall
  · rintro (⟨n, hn⟩ | ⟨n, hn⟩)
    · refine ⟨n, ?_⟩
      cases hcall : parentCall n answer path with
      | none => rfl
      | some q =>
        have := (parentCall_eq_some_iff n).mp hcall
        rw [hn] at this
        cases this.1
    · refine ⟨n + 1, ?_⟩
      cases hcall : parentCall (n + 1) answer path with
      | none => rfl
      | some q => exact absurd hn (((parentCall_eq_some_iff (n + 1)).mp hcall).2 n (by omega))

theorem Rooted.congr (h : Rooted path) (hhead : parent.head? = path.head?) : Rooted parent := by
  unfold Rooted
  rw [hhead]
  exact h

/-- A call for a path that starts with a slash is the last, or the next has fewer slashes. -/
theorem rooted_step (hroot : ∀ d, answer d [slash] ≠ .missing) (h : Rooted path) (n : ℕ) :
    parentCall (n + 1) answer path = none ∨ ∃ parent, Rooted parent ∧ parent.count slash < path.count slash ∧
      parentCall (n + 1) answer path = parentCall n (fun d => answer (d + 1)) parent := by
  rw [parentCall]
  cases hdir : dirname path false with
  | none => exact Or.inl rfl
  | some parent =>
    rw [Option.bind_some]
    rcases dirname_cases hdir with hslash | ⟨-, hnot⟩ | ⟨hhead, hcount⟩
    · rw [hslash, if_neg (hroot 0)]
      exact Or.inl rfl
    · exact absurd h hnot
    · split
      · exact Or.inr ⟨parent, h.congr hhead, hcount, rfl⟩
      · exact Or.inl rfl

/-- **From a path that starts with a slash** there are no more calls than it has slashes. -/
theorem rooted_ends (hroot : ∀ d, answer d [slash] ≠ .missing) (h : Rooted path) {n : ℕ}
    (hn : path.count slash ≤ n) :
    parentCall (n + 1) answer path = none := by
  induction n generalizing answer path with
  | zero =>
    rcases rooted_step hroot h 0 with hend | ⟨parent, -, hcount, -⟩
    · exact hend
    · omega
  | succ n ih =>
    rcases rooted_step hroot h (n + 1) with hend | ⟨parent, hparent, hcount, hnext⟩
    · exact hend
    · rw [hnext]
      exact ih (fun d => hroot (d + 1)) hparent (by omega)

/-- The working directory is its own `dirname`. -/
theorem here_calls {n : ℕ} {q : List UInt8} (h : parentCall n answer [dot, 0] = some q) : q = [dot, 0] := by
  induction n generalizing answer with
  | zero =>
    cases h
    rfl
  | succ n ih =>
    have hdir : dirname [dot, 0] false = some [dot, 0] := by decide
    rw [parentCall, hdir, Option.bind_some] at h
    split at h
    · exact ih h
    · cases h

/-- **From any other path** the calls get to the working directory and stay there. -/
theorem relative_calls (hroot : ∀ d, answer d [slash] ≠ .missing) (h : ¬ Rooted path) {n : ℕ}
    (hn : path.count slash < n) {q : List UInt8} (hcall : parentCall n answer path = some q) : q = [dot, 0] := by
  induction n generalizing answer path with
  | zero => omega
  | succ n ih =>
    rw [parentCall] at hcall
    obtain ⟨parent, hdir, hcall⟩ := Option.bind_eq_some_iff.mp hcall
    split at hcall
    · rename_i hmissing
      rcases dirname_cases hdir with hslash | ⟨rfl, -⟩ | ⟨hhead, hcount⟩
      · rw [hslash] at hmissing
        exact absurd hmissing (hroot 0)
      · exact here_calls hcall
      · exact ih (fun d => hroot (d + 1)) (fun hr => h (hr.congr hhead.symm)) (by omega) hcall
    · cases hcall

/-- **The recursion of `create_parent_dir`.** For every path, and every answer of the system calls at each
depth but for `/`: there are finitely many calls exactly if the path is empty or starts with a slash,
`dirname` is undefined for one of the directories, or one of them is found. From an absolute path
there are at most as many as it has slashes; from a relative one all further ones are for the
working directory. -/
theorem parent_calls_end_iff (hroot : ∀ d, answer d [slash] ≠ .missing) (path : List UInt8) :
    ((∃ n, parentCall n answer path = none) ↔
      Rooted path ∨ (∃ n, ancestor n path = none) ∨ ∃ n, FoundAt answer path n) ∧
    (Rooted path → parentCall (path.count slash + 1) answer path = none) ∧
    (¬ Rooted path → ∀ n q, path.count slash < n → parentCall n answer path = some q → q = [dot, 0]) := by
  refine ⟨?_, fun h => rooted_ends hroot h le_rfl, fun h n q hn hcall => relative_calls hroot h hn hcall⟩
  constructor
  · intro hend
    exact Or.inr (parentCall_ends_iff.mp hend)
  · rintro (h | h)
    · exact ⟨_, rooted_ends hroot h le_rfl⟩
    · exact parentCall_ends_iff.mpr h

/-- Only the root exists. -/
def onlyRoot : ℕ → List UInt8 → DirAnswer := fun _ path => if path = [slash] then .ready else .missing

theorem rooted_path_ends : parentCall 3 onlyRoot (bytes "/a/b") = none := by
  have hroot : ∀ d, onlyRoot d [slash] ≠ .missing := by
    intro d
    have hready : onlyRoot d [slash] = .ready := rfl
    rw [hready]
    decide
  exact (parent_calls_end_iff hroot (bytes "/a/b")).2.1 (by rintro b ⟨⟩; rfl)

/-- In a working directory without search permission nothing is found at `.`, and the path `a` leads to `.` over
and over. -/
theorem unsearchable_cwd_never_ends : ¬ ∃ n, parentCall n onlyRoot (bytes "a") = none := by
  have hhere : ∀ n, parentCall n onlyRoot [dot, 0] = some [dot, 0] := by
    intro n
    induction n with
    | zero => rfl
    | succ n ih =>
      have hdir : dirname [dot, 0] false = some [dot, 0] := by decide
      rw [parentCall, hdir, Option.bind_some, if_pos (by decide)]
      exact ih
  rintro ⟨n, hend⟩
  cases n with
  | zero => cases hend
  | succ n =>
    have hdir : dirname (bytes "a") false = some [dot, 0] := by decide
    rw [parentCall, hdir, Option.bind_some, if_pos (by decide)] at hend
    cases (hhere n).symm.trans hend

/-! ## Over a file system -/

theorem answer_eq_missing {fs : FileSystem} (ha : fs.accessible path = false) (hp : fs.present path = false) :
    fs.answer path = .missing := by
  unfold FileSystem.answer
  rw [ha, hp]
  rfl

/-- Where `create_parent_dir` runs out of its bound, there is a call at that depth. -/
theorem createParentDirFuel_none {fs : FileSystem} {n : ℕ} (h : createParentDirFuel n fs path = none) :
    (∃ q, parentCall n (fun _ => fs.answer) path = some q) ∨ ∃ m ≤ n, ancestor m path = none := by
  induction n generalizing path with
  | zero => exact Or.inl ⟨path, rfl⟩
  | succ n ih =>
    rw [createParentDirFuel] at h
    cases hdir : dirname path false with
    | none =>
      refine Or.inr ⟨1, by omega, ?_⟩
      rw [ancestor, hdir]
      rfl
    | some parent =>
      rw [hdir, Option.bind_some] at h
      split_ifs at h with ha hp
      rw [Option.map_eq_none_iff] at h
      rw [Bool.not_eq_true] at ha hp
      rcases ih h with ⟨q, hq⟩ | ⟨m, hm, hnone⟩
      · refine Or.inl ⟨q, ?_⟩
        rw [parentCall, hdir, Option.bind_some, if_pos (answer_eq_missing ha hp)]
        exact hq
      · exact Or.inr ⟨m + 1, by omega, (ancestor_succ hdir m).trans hnone⟩

end Spigeon
