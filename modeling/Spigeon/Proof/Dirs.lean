import Spigeon.Proof.Path
import Spigeon.Spec.Dirs

/-!
# Which parent directories can be created

`dirname` leaves its zeros inside the string, and the next level of `create_parent_dir` reads
on behind them. A level whose C string is `A` still holds `m` slashes that stood behind `A`
(`Level`), and while `m` is not 0 the level above it has the same C string: the directory is
made there and the outer `mkdir` then finds it. So the directories that are missing must be
followed by a single slash.
-/

namespace Spigeon

open CInt CStr List

/-! ### The names in a path -/

theorem namesFrom_append_slash (cur xs ys : List UInt8) :
    namesFrom cur (xs ++ slash :: ys) = namesFrom cur xs ++ names ys := by
  induction xs generalizing cur with
  | nil => simp only [nil_append, namesFrom, if_true, names]
  | cons x xs ih =>
    rw [cons_append, namesFrom, namesFrom]
    by_cases hx : x = slash
    · rw [if_pos hx, if_pos hx, ih, append_assoc]
    · rw [if_neg hx, if_neg hx, ih]

theorem names_run (X Y : List UInt8) (k : ℕ) :
    names (X ++ (replicate (k + 1) slash ++ Y)) = names X ++ names Y := by
  have hrun : ∀ k, names (replicate k slash ++ Y) = names Y := by
    intro k
    induction k with
    | zero => rfl
    | succ k ih =>
      have := namesFrom_append_slash [] [] (replicate k slash ++ Y)
      rw [replicate_succ, cons_append]
      rw [ih] at this
      exact this
  rw [replicate_succ, cons_append, names, namesFrom_append_slash, hrun]
  rfl

theorem namesFrom_name {B : List UInt8} (hB : slash ∉ B) (cur : List UInt8) :
    namesFrom cur B = if cur ++ B = [] then [] else [cur ++ B] := by
  induction B generalizing cur with
  | nil => rw [namesFrom, append_nil]
  | cons b B ih =>
    rw [mem_cons, not_or] at hB
    rw [namesFrom, if_neg (Ne.symm hB.1), ih hB.2, append_assoc, singleton_append]

theorem names_name {B : List UInt8} (hB : slash ∉ B) (hne : B ≠ []) : names B = [B] := by
  rw [names, namesFrom_name hB, nil_append, if_neg hne]

/-! ### The directories on the way -/

/-- `Q` is a directory on the way of `path`, and `j + 1` slashes stand behind it. -/
structure DirPrefix (path Q : List UInt8) (j : ℕ) : Prop where
  rest : ∃ R, path = Q ++ (replicate (j + 1) slash ++ R) ∧ R ≠ [] ∧ R.head? ≠ some slash
  ne : Q ≠ []
  last : Q.getLast? ≠ some slash

theorem not_all_slash {X : List UInt8} (hX : X ≠ []) (hlast : X.getLast? ≠ some slash) :
    ¬ ∀ x ∈ X, x = slash := by
  intro hall
  rw [getLast?_eq_some_getLast hX, hall _ (getLast_mem hX)] at hlast
  exact hlast rfl

/-- A block that does not end in a slash reaches behind the slashes it starts with. -/
theorem run_split {X Y Z : List UInt8} {n : ℕ} (h : X ++ Y = replicate n slash ++ Z)
    (hX : X ≠ []) (hlast : X.getLast? ≠ some slash) :
    ∃ X', X' ≠ [] ∧ X = replicate n slash ++ X' ∧ Z = X' ++ Y := by
  have hnot := not_all_slash hX hlast
  rcases append_eq_append_iff.mp h with ⟨a, ha, -⟩ | ⟨c, hc, hZ⟩
  · exact absurd (fun x hx => eq_of_mem_replicate (ha ▸ mem_append_left _ hx)) hnot
  · refine ⟨c, ?_, hc, hZ⟩
    rintro rfl
    rw [append_nil] at hc
    exact hnot fun x hx => eq_of_mem_replicate (hc ▸ hx)

/-- A run of slashes ends where it ends. -/
theorem run_length {X Y : List UInt8} {m n : ℕ} (h : replicate m slash ++ X = replicate n slash ++ Y)
    (hX : X.head? ≠ some slash) (hY : Y.head? ≠ some slash) : m = n := by
  induction m generalizing n with
  | zero =>
    cases n with
    | zero => rfl
    | succ n =>
      rw [replicate_zero, nil_append, replicate_succ, cons_append] at h
      exact absurd (h ▸ rfl) hX
  | succ m ih =>
    cases n with
    | zero =>
      rw [replicate_zero, nil_append, replicate_succ, cons_append] at h
      exact absurd (h ▸ rfl) hY
    | succ n =>
      rw [replicate_succ, replicate_succ, cons_append, cons_append] at h
      rw [ih (tail_eq_of_cons_eq h)]

section Parts

variable {w P B Q : List UInt8} {k t j : ℕ}

theorem PathSplit.head_name (h : PathSplit w P k B t) (Z : List UInt8) :
    (B ++ Z).head? ≠ some slash := by
  intro hs
  rw [head?_append_of_ne_nil _ h.name] at hs
  exact h.noSlash (mem_of_head? hs)

/-- The directories on the way are the one before the last name, and those on the way to it. -/
theorem PathSplit.dirPrefix_cases (h : PathSplit w P k B t) (hQ : DirPrefix w Q j) :
    (Q = P ∧ j + 1 = k) ∨ DirPrefix P Q j := by
  obtain ⟨⟨R, hR, hRne, hRhead⟩, hQne, hQlast⟩ := hQ
  have hsame : replicate k slash ++ (B ++ replicate t slash) = replicate (j + 1) slash ++ R →
      j + 1 = k := fun he => (run_length he (h.head_name _) hRhead).symm
  rw [h.eq] at hR
  rcases append_eq_append_iff.mp hR with ⟨a, ha, hrest⟩ | ⟨c, hc, hrest⟩
  · by_cases ha0 : a = []
    · subst ha0
      rw [append_nil] at ha
      exact Or.inl ⟨ha, hsame hrest⟩
    · -- `Q` would end inside the last name, or behind it
      exfalso
      have halast : a.getLast? ≠ some slash := by
        rw [ha, getLast?_append_of_ne_nil _ ha0] at hQlast
        exact hQlast
      obtain ⟨a', -, -, hBT⟩ := run_split hrest.symm ha0 halast
      rw [← append_assoc] at hBT
      rcases append_eq_append_iff.mp hBT with ⟨b, -, hT⟩ | ⟨b, hb, -⟩
      · have hmem : R.head hRne ∈ replicate t slash := hT ▸ mem_append_right _ (head_mem hRne)
        rw [head?_eq_some_head hRne, eq_of_mem_replicate hmem] at hRhead
        exact hRhead rfl
      · refine h.noSlash ?_
        rw [hb]
        simp
  · by_cases hc0 : c = []
    · subst hc0
      rw [append_nil] at hc
      exact Or.inl ⟨hc.symm, hsame hrest.symm⟩
    · have hclast : c.getLast? ≠ some slash := by
        have := h.head
        rw [hc, getLast?_append_of_ne_nil _ hc0] at this
        exact this
      obtain ⟨c', hc'ne, hc', hR'⟩ := run_split hrest.symm hc0 hclast
      refine Or.inr ⟨⟨c', by rw [hc, hc'], hc'ne, ?_⟩, hQne, hQlast⟩
      rw [hR', head?_append_of_ne_nil _ hc'ne] at hRhead
      exact hRhead

theorem PathSplit.dirPrefix_self (h : PathSplit w P (k + 1) B t) (hP : P ≠ []) :
    DirPrefix w P k :=
  ⟨⟨B ++ replicate t slash, h.eq, by simp [h.name], h.head_name _⟩, hP, h.head⟩

theorem PathSplit.dirPrefix_mono (h : PathSplit w P k B t) (hQ : DirPrefix P Q j) :
    DirPrefix w Q j := by
  obtain ⟨⟨R, hR, hRne, hRhead⟩, hQne, hQlast⟩ := hQ
  refine ⟨⟨R ++ (replicate k slash ++ (B ++ replicate t slash)), ?_, by simp [hRne], ?_⟩, hQne, hQlast⟩
  · rw [h.eq, hR]
    simp only [append_assoc]
  · rw [head?_append_of_ne_nil _ hRne]
    exact hRhead

end Parts

theorem not_dirPrefix_nil {Q : List UInt8} {j : ℕ} : ¬ DirPrefix [] Q j := by
  rintro ⟨⟨R, hR, -, -⟩, hQne, -⟩
  exact hQne (append_eq_nil_iff.mp hR.symm).1

/-- The path does not end in a slash, and so its last name is at its end. -/
theorem exists_pathSplit_end {A : List UInt8} (hA : A ≠ []) (hlast : A.getLast? ≠ some slash) :
    ∃ P k B, PathSplit A P k B 0 := by
  obtain ⟨P, k, B, t, h⟩ := exists_pathSplit (not_all_slash hA hlast)
  cases t with
  | zero => exact ⟨P, k, B, h⟩
  | succ t =>
    rw [h.eq, ← append_assoc, ← append_assoc, getLast?_append, getLast?_replicate,
      if_neg (by omega)] at hlast
    exact absurd rfl hlast

/-! ### The file system along a path -/

namespace FileSystem

variable {fs fs' : FileSystem} {w P B Q : List UInt8} {k t j : ℕ}

theorem walk_append (l : Place) (xs ys : List (List UInt8)) :
    fs.walk l (xs ++ ys) = (fs.walk l xs).bind fun m => fs.walk m ys := by
  unfold walk
  rw [foldlM_append]
  rfl

theorem walk_singleton (l : Place) (x : List UInt8) : fs.walk l [x] = fs.enter l x := by
  unfold walk
  rw [foldlM_cons]
  cases fs.enter l x <;> rfl

/-- A walk that succeeds still does when there are more directories. -/
theorem walk_mono (hdir : ∀ l, fs.isDirAt l → fs'.isDirAt l) {l m : Place}
    {xs : List (List UInt8)} (h : fs.walk l xs = some m) : fs'.walk l xs = some m := by
  have hstep : ∀ l x m, fs.enter l x = some m → fs'.enter l x = some m := by
    intro l x m hm
    unfold enter at hm ⊢
    by_cases h1 : x = [dot]
    · rw [if_pos h1] at hm ⊢
      exact hm
    by_cases h2 : x = [dot, dot]
    · rw [if_neg h1, if_pos h2] at hm ⊢
      exact hm
    by_cases h3 : fs.isDirAt (l ++ [x])
    · rw [if_neg h1, if_neg h2, if_pos h3] at hm
      rw [if_neg h1, if_neg h2, if_pos (hdir _ h3)]
      exact hm
    · rw [if_neg h1, if_neg h2, if_neg h3] at hm
      cases hm
  induction xs generalizing l with
  | nil => exact h
  | cons x xs ih =>
    rw [← singleton_append, walk_append, walk_singleton] at h ⊢
    obtain ⟨l', hl', hrest⟩ := Option.bind_eq_some_iff.mp h
    rw [hstep _ _ _ hl', Option.bind_some]
    exact ih hrest

theorem start_append (hQ : Q ≠ []) (R : List UInt8) : fs.start (Q ++ R) = fs.start Q := by
  obtain ⟨q, Q, rfl⟩ := exists_cons_of_ne_nil hQ
  rfl

/-- The directories on the way to a directory exist. -/
theorem locate_dirPrefix (hQ : DirPrefix P Q j) (hP : (fs.locate P).isSome) :
    (fs.locate Q).isSome := by
  obtain ⟨⟨R, hR, -, -⟩, hQne, -⟩ := hQ
  have hPne : P ≠ [] := by simp [hR, hQne]
  unfold locate at hP ⊢
  rw [if_neg hPne, hR, start_append hQne, names_run, walk_append] at hP
  rw [if_neg hQne]
  cases hw : fs.walk (fs.start Q) (names Q) with
  | none =>
    rw [hw] at hP
    cases hP
  | some l => rfl

/-- The names of a path are those of its directory and the last one. -/
theorem names_pathSplit (h : PathSplit w P k B 0) : names w = names P ++ [B] := by
  have hw := h.eq
  rw [replicate_zero, append_nil] at hw
  rw [← names_name h.noSlash h.name, hw]
  cases k with
  | zero =>
    rw [h.lead rfl]
    rfl
  | succ k => exact names_run P B k

theorem accessible_iff :
    fs.accessible w ↔ ∃ l, fs.locate w = some l ∧ fs.node l = some (.dir true) := by
  unfold accessible
  cases fs.locate w with
  | none => simp
  | some l => simp

theorem present_of_locate {l : Place} (h : fs.locate w = some l) : fs.present w := by
  rw [present, h]
  rfl

theorem present_of_accessible (h : fs.accessible w) : fs.present w := by
  obtain ⟨l, hl, -⟩ := accessible_iff.mp h
  exact present_of_locate hl

theorem addDir_node_self {l : Place} {x : List UInt8} (hd : fs.node l = some (.dir true)) :
    (fs.addDir l x hd).node (l ++ [x]) = some (.dir true) :=
  Function.update_self ..

theorem addDir_node_of_ne {l m : Place} {x : List UInt8} (hd : fs.node l = some (.dir true))
    (hm : m ≠ l ++ [x]) : (fs.addDir l x hd).node m = fs.node m :=
  Function.update_of_ne hm ..

section LastName

variable (h : PathSplit w P k B 0) {l : Place} (hl : fs.walk (fs.start w) (names P) = some l)
include h hl

theorem locate_pathSplit : fs.locate w = fs.enter l B := by
  have hne : w ≠ [] := by
    rw [h.eq]
    simp [h.name]
  rw [locate, if_neg hne, names_pathSplit h, walk_append, hl, Option.bind_some, walk_singleton]

theorem mkdir_pathSplit :
    fs.mkdir w =
      if h : fs.node l = some (.dir true) then
        if isDots B ∨ fs.node (l ++ [B]) ≠ none then none else some (fs.addDir l B h)
      else none := by
  unfold mkdir
  rw [names_pathSplit h, getLast?_concat, dropLast_concat, hl]

/-- Nothing stands where a path that is not present ends. -/
theorem node_of_not_present (hp : ¬ fs.present w) (hB : ¬ isDots B) : fs.node (l ++ [B]) = none := by
  simp only [isDots, Bool.or_eq_true, decide_eq_true_eq, not_or] at hB
  rw [present, Bool.or_eq_true, not_or, locate_pathSplit h hl, enter, if_neg hB.1, if_neg hB.2,
    isOther, names_pathSplit h, getLast?_concat, dropLast_concat, hl, isDirAt] at hp
  cases hn : fs.node (l ++ [B]) with
  | none => rfl
  | some x =>
    rw [hn] at hp
    cases x with
    | dir b => exact absurd rfl hp.1
    | other => exact absurd (decide_eq_true hn) hp.2

/-- `mkdir` fails on a directory that exists. -/
theorem mkdir_of_locate {m : Place} (hw : fs.locate w = some m) : fs.mkdir w = none := by
  rw [mkdir_pathSplit h hl]
  by_cases hd : fs.node l = some (.dir true)
  · rw [dif_pos hd]
    refine if_pos ?_
    by_contra hno
    simp only [isDots, Bool.or_eq_true, decide_eq_true_eq, not_or, not_not] at hno
    rw [locate_pathSplit h hl, enter, if_neg hno.1.1, if_neg hno.1.2, isDirAt, hno.2] at hw
    cases hw
  · rw [dif_neg hd]

/-- The new directory is found and empty. -/
theorem mkdir_fresh (hd : fs.node l = some (.dir true)) (hB : ¬ isDots B)
    (hnone : fs.node (l ++ [B]) = none) :
    ∃ fs', fs.mkdir w = some fs' ∧ fs'.locate w = some (l ++ [B]) ∧
      fs'.node (l ++ [B]) = some (.dir true) ∧ ∀ x, fs'.node (l ++ [B] ++ [x]) = none := by
  have hnode := addDir_node_self (x := B) hd
  refine ⟨fs.addDir l B hd, ?_, ?_, hnode, ?_⟩
  · rw [mkdir_pathSplit h hl, dif_pos hd, if_neg]
    rintro (hB' | hn)
    · exact hB hB'
    · exact hn hnone
  · have hdir : ∀ m, fs.isDirAt m → (fs.addDir l B hd).isDirAt m := by
      intro m hm
      by_cases he : m = l ++ [B]
      · rw [he, isDirAt, hnode]
      · rw [isDirAt, addDir_node_of_ne hd he]
        exact hm
    simp only [isDots, Bool.or_eq_true, decide_eq_true_eq, not_or] at hB
    rw [locate_pathSplit h (walk_mono hdir hl), enter, if_neg hB.1, if_neg hB.2, isDirAt, hnode]
    rfl
  · intro x
    have hne : l ++ [B] ++ [x] ≠ l ++ [B] := by
      intro he
      simpa using congrArg length he
    have hold : fs.node (l ++ [B] ++ [x]) = none := by
      by_contra hx
      obtain ⟨b, hb⟩ := fs.closed _ _ hx
      rw [hnone] at hb
      cases hb
    rw [addDir_node_of_ne hd hne, hold]

end LastName

end FileSystem

/-! ### The levels of the recursion -/

/-- A string handed on by `create_parent_dir`: its C string is `A`, and of the slashes that stood
behind `A` in the path, `m` are still there. -/
structure Level (w A : List UInt8) (m : ℕ) : Prop where
  eq : ∃ Z N t, w = A ++ 0 :: (Z ++ (replicate m slash ++ (N ++ replicate t slash))) ∧
    slash ∉ Z ∧ N ≠ [] ∧ slash ∉ N
  nul : 0 ∉ A
  ne : A ≠ []
  last : A.getLast? ≠ some slash
  len : w.length ≤ 2 ^ 31

section Levels

variable {w A P B : List UInt8} {m k t : ℕ}

theorem Level.cStr_eq (h : Level w A m) : cStr w = A := by
  obtain ⟨Z, N, t, rfl, -⟩ := h.eq
  exact cStr_append_nul _ h.nul

/-- While slashes are left behind `A`, the next level has the same C string. -/
theorem Level.again (h : Level w A (m + 1)) : ∃ w', dirname w false = some w' ∧ Level w' A m := by
  obtain ⟨Z, N, t, hw, hZ, hN, hNs⟩ := h.eq
  have h0 : slash ≠ 0 := by decide
  have hsplit : PathSplit w (A ++ 0 :: Z) (m + 1) N t := by
    refine ⟨by rw [hw]; simp only [append_assoc, cons_append], hN, hNs, ?_, by omega⟩
    intro hs
    rw [getLast?_append_of_ne_nil _ (cons_ne_nil _ _)] at hs
    rcases mem_cons.mp (mem_of_getLast? hs) with h | h
    · exact h0 h
    · exact hZ h
  refine ⟨_, hsplit.dirname_cut h.len (by simp), ⟨Z ++ [0], 0 :: N.tail, t, ?_, ?_, by simp, ?_⟩,
    h.nul, h.ne, h.last, ?_⟩
  · simp only [append_assoc, cons_append, nil_append]
  · simp [hZ, h0]
  · simp only [mem_cons, not_or]
    exact ⟨h0, fun hs => hNs (mem_of_mem_tail hs)⟩
  · have hlen := h.len
    have hpos := hsplit.name_pos
    have hl := hsplit.length
    simp only [length_append, length_cons, length_replicate, length_tail] at hl ⊢
    omega

/-- The level above a path is that of its directory. -/
theorem PathSplit.level (h : PathSplit w P (k + 1) B t) (hP : P ≠ []) (hP0 : 0 ∉ P)
    (hlen : w.length ≤ 2 ^ 31) : ∃ w', dirname w false = some w' ∧ Level w' P k := by
  refine ⟨_, h.dirname_cut hlen hP, ⟨[], 0 :: B.tail, t, rfl, by simp, by simp, ?_⟩, hP0, hP,
    h.head, ?_⟩
  · simp only [mem_cons, not_or]
    exact ⟨by decide, fun hs => h.noSlash (mem_of_mem_tail hs)⟩
  · have hpos := h.name_pos
    have hl := h.length
    simp only [length_append, length_cons, length_replicate, length_tail] at hl ⊢
    omega

/-- Without slashes behind `A`, what follows its last name is read as a part of the name. -/
theorem Level.pathSplit (h : Level w A 0) (hA : PathSplit A P k B 0) :
    ∃ B' t, PathSplit w P k B' t := by
  obtain ⟨Z, N, t, hw, hZ, hN, hNs⟩ := h.eq
  refine ⟨B ++ 0 :: (Z ++ N), t, ?_, by simp, ?_, hA.head, hA.lead⟩
  · rw [hw, hA.eq]
    simp only [replicate_zero, append_nil, nil_append, append_assoc, cons_append]
  · simp only [mem_append, mem_cons, not_or]
    exact ⟨hA.noSlash, by decide, hZ, hNs⟩

/-- A path with a single name starts in the directory that `dirname` gives. -/
theorem PathSplit.base (h : PathSplit w [] k B t) (hlen : w.length ≤ 2 ^ 31) {fs : FileSystem}
    (hstart : fs.node (fs.start w) = some (.dir true)) :
    ∃ d, dirname w false = some d ∧ fs.accessible (cStr d) := by
  cases k with
  | zero =>
    refine ⟨_, h.dirname_here hlen false, FileSystem.accessible_iff.mpr ⟨fs.cwd, rfl, ?_⟩⟩
    obtain ⟨b, B', rfl⟩ := exists_cons_of_ne_nil h.name
    have hb : b ≠ slash := fun hs => h.noSlash (hs ▸ mem_cons_self)
    have hw : fs.start w = fs.cwd := by
      rw [h.eq]
      exact if_neg hb
    rw [← hw]
    exact hstart
  | succ k =>
    obtain ⟨rest, hrest⟩ := h.dirname_root hlen
    refine ⟨_, hrest, FileSystem.accessible_iff.mpr ⟨[], ?_, ?_⟩⟩
    · rw [cStr_append_nul _ (by decide)]
      rfl
    · have hw : fs.start w = [] := by
        rw [h.eq, nil_append, replicate_succ, cons_append, FileSystem.start, if_pos rfl]
      rw [← hw]
      exact hstart

end Levels

/-! ### What is created -/

/-- The last name of the path is one that every directory has. -/
def endsInDots (path : List UInt8) : Bool := (names path).getLast?.any isDots

/-- Every directory that is missing on the way of `path` is followed by a single slash, and has a
name that `mkdir` takes. -/
def Plain (fs : FileSystem) (path : List UInt8) : Prop :=
  ∀ Q j, DirPrefix path Q j → ¬ fs.present Q → j = 0 ∧ ¬ endsInDots Q

section Plain

variable {fs : FileSystem} {w P B : List UInt8} {k t : ℕ}

theorem PathSplit.plain_base (h : PathSplit w [] k B t) : Plain fs w := by
  intro Q j hQ
  rcases h.dirPrefix_cases hQ with ⟨hnil, -⟩ | hQ'
  · exact absurd hnil hQ.ne
  · exact absurd hQ' not_dirPrefix_nil

theorem PathSplit.plain_iff (h : PathSplit w P (k + 1) B t) (hP : P ≠ []) :
    Plain fs w ↔ Plain fs P ∧ (¬ fs.present P → k = 0 ∧ ¬ endsInDots P) := by
  constructor
  · intro hw
    exact ⟨fun Q j hQ => hw Q j (h.dirPrefix_mono hQ), hw P k (h.dirPrefix_self hP)⟩
  · rintro ⟨hPl, hlast⟩ Q j hQ
    rcases h.dirPrefix_cases hQ with ⟨rfl, hj⟩ | hQ'
    · obtain rfl : j = k := by omega
      exact hlast
    · exact hPl Q j hQ'

/-- On the way to a directory nothing is missing. -/
theorem plain_of_locate (hP : (fs.locate P).isSome) : Plain fs P := by
  intro Q j hQ hno
  obtain ⟨l, hl⟩ := Option.isSome_iff_exists.mp (FileSystem.locate_dirPrefix hQ hP)
  exact absurd (FileSystem.present_of_locate hl) hno

theorem PathSplit.endsInDots_eq (h : PathSplit w P k B 0) : endsInDots w = isDots B := by
  rw [endsInDots, FileSystem.names_pathSplit h, getLast?_concat]
  rfl

end Plain

/-- The result of creating `A`. If `ok`, it is a directory, which was there before or is new and
empty. -/
inductive Outcome (fs : FileSystem) (A : List UInt8) (ok : Prop) : Option (ℤ × FileSystem) → Prop
  | made {fs' : FileSystem} {l : Place} (hok : ok) (hloc : fs'.locate A = some l)
      (hdir : fs'.node l = some (.dir true)) (hnew : fs' = fs ∨ ∀ x, fs'.node (l ++ [x]) = none) :
      Outcome fs A ok (some (0, fs'))
  | failed {fs' : FileSystem} (hok : ¬ ok) : Outcome fs A ok (some (-1, fs'))

theorem createParentDirFuel_succ (n : ℕ) (fs : FileSystem) (path : List UInt8) :
    createParentDirFuel (n + 1) fs path = (dirname path false).bind (createDirFuel n fs) := rfl

theorem createDirFuel_accessible {fs : FileSystem} {d : List UInt8} (n : ℕ)
    (h : fs.accessible (cStr d)) : createDirFuel n fs d = some (0, fs) := if_pos h

section Create

variable {fs : FileSystem} {w A P B : List UInt8} {m k t : ℕ}

/-- The last step: the directory `P` of `A` is there, and `A` is made in it. -/
theorem makeDir_outcome {fs' : FileSystem} {l : Place} (hA : PathSplit A P k B 0)
    (hl : fs'.walk (fs'.start A) (names P) = some l) (hd : fs'.node l = some (.dir true))
    (hnone : ¬ isDots B → fs'.node (l ++ [B]) = none) :
    Outcome fs A (¬ endsInDots A) (some (fs'.makeDir A)) := by
  rw [hA.endsInDots_eq]
  unfold FileSystem.makeDir
  by_cases hB : isDots B
  · rw [FileSystem.mkdir_pathSplit hA hl, dif_pos hd, if_pos (Or.inl hB)]
    exact .failed (not_not_intro hB)
  · obtain ⟨fs'', hmk, hloc, hnode, hempty⟩ := FileSystem.mkdir_fresh hA hl hd hB (hnone hB)
    rw [hmk]
    exact .made hB hloc hnode (Or.inr hempty)

theorem Outcome.congr {ok ok' : Prop} {r : Option (ℤ × FileSystem)} (h : Outcome fs A ok r)
    (hok : ok ↔ ok') : Outcome fs A ok' r := by
  rw [← propext hok]
  exact h

/-- Making a directory that is there already fails. -/
theorem makeDir_of_locate {l : Place} (hne : A ≠ []) (hlast : A.getLast? ≠ some slash)
    (hloc : fs.locate A = some l) : fs.makeDir A = (-1, fs) := by
  obtain ⟨P, k, B, hA⟩ := exists_pathSplit_end hne hlast
  have hw : fs.walk (fs.start A) (names P ++ [B]) = some l := by
    rw [← FileSystem.names_pathSplit hA]
    rw [FileSystem.locate, if_neg hne] at hloc
    exact hloc
  rw [FileSystem.walk_append] at hw
  obtain ⟨l', hl', -⟩ := Option.bind_eq_some_iff.mp hw
  rw [FileSystem.makeDir, FileSystem.mkdir_of_locate hA hl' hloc]

/-- **One directory.** At every level of the recursion, `A` is there at the end exactly when all
that is missing on the way is plain and no slashes are left behind `A`. -/
theorem createDir_level {n : ℕ} (h : Level w A m) (hn : A.count slash + m < n)
    (hstart : fs.node (fs.start A) = some (.dir true))
    (hway : ∀ Q j, DirPrefix A Q j → fs.present Q → fs.accessible Q)
    (hself : fs.present A → fs.accessible A) :
    Outcome fs A (Plain fs A ∧ (¬ fs.present A → m = 0 ∧ ¬ endsInDots A))
      (createDirFuel n fs w) := by
  induction n generalizing w A m with
  | zero => omega
  | succ n ih =>
    by_cases hacc : fs.accessible A
    · have hpres := FileSystem.present_of_accessible hacc
      obtain ⟨l, hl, hd⟩ := FileSystem.accessible_iff.mp hacc
      rw [createDirFuel_accessible _ (by rw [h.cStr_eq]; exact hacc)]
      refine .made ⟨plain_of_locate (by rw [hl]; rfl), fun hno => absurd hpres hno⟩ hl hd ?_
      exact Or.inl rfl
    · have hno : ¬ fs.present A := fun hp => hacc (hself hp)
      rw [createDirFuel, h.cStr_eq, if_neg hacc, if_neg hno, createParentDirFuel_succ]
      cases m with
      | succ m =>
        -- the next level makes `A` itself, if it can, and `mkdir` then fails here
        obtain ⟨w', hw', hlev⟩ := h.again
        rw [hw', Option.bind_some]
        have hnot : ¬ (Plain fs A ∧ (¬ fs.present A → m + 1 = 0 ∧ ¬ endsInDots A)) :=
          fun hok => absurd (hok.2 hno).1 (by omega)
        have hout := ih hlev (by omega) hstart hway hself
        generalize createDirFuel n fs w' = r at hout ⊢
        cases hout with
        | made hok hloc hdir hnew =>
          rw [Option.map_some, if_pos rfl, makeDir_of_locate h.ne h.last hloc]
          exact .failed hnot
        | failed hok => exact .failed hnot
      | zero =>
        obtain ⟨P, k, B, hA⟩ := exists_pathSplit_end h.ne h.last
        obtain ⟨B', t, hw⟩ := h.pathSplit hA
        have hok : Plain fs A → (¬ endsInDots A ↔
            Plain fs A ∧ (¬ fs.present A → 0 = 0 ∧ ¬ endsInDots A)) :=
          fun hpl => ⟨fun hd => ⟨hpl, fun _ => ⟨rfl, hd⟩⟩, fun h => (h.2 hno).2⟩
        by_cases hP : P = []
        · -- `A` is a single name in the root or the working directory
          subst hP
          have hstartw : fs.start w = fs.start A := by
            obtain ⟨Z, N, t, hwA, -⟩ := h.eq
            rw [hwA, FileSystem.start_append h.ne]
          obtain ⟨d, hd, hacc'⟩ := hw.base h.len (hstartw ▸ hstart)
          rw [hd, Option.bind_some, createDirFuel_accessible n hacc', Option.map_some, if_pos rfl]
          exact (makeDir_outcome hA rfl hstart
            (FileSystem.node_of_not_present hA rfl hno)).congr (hok hA.plain_base)
        · obtain ⟨k, rfl⟩ : ∃ k', k = k' + 1 :=
            Nat.exists_eq_succ_of_ne_zero fun hk => hP (hA.lead hk)
          -- the directory `P` comes first, with the slashes that stand behind it
          have hself' := hA.dirPrefix_self hP
          have hstartP : fs.start P = fs.start A := by rw [hA.eq, FileSystem.start_append hP]
          obtain ⟨w', hw', hlev⟩ := hw.level hP (hA.nul_not_mem h.nul).1 h.len
          rw [hw', Option.bind_some]
          have hcount : P.count slash + (k + 1) ≤ A.count slash := by
            rw [hA.eq, count_append, count_append, count_replicate_self]
            omega
          have hout := ih hlev (by omega) (hstartP ▸ hstart)
            (fun Q j hQ => hway Q j (hA.dirPrefix_mono hQ)) (hway P k hself')
          generalize createDirFuel n fs w' = r at hout ⊢
          cases hout with
          | made hpl hloc hdir hnew =>
            rw [Option.map_some, if_pos rfl]
            rename_i fs' l
            have hl : fs'.walk (fs'.start A) (names P) = some l := by
              rw [FileSystem.locate, if_neg hP] at hloc
              rw [hA.eq, FileSystem.start_append hP]
              exact hloc
            refine (makeDir_outcome hA hl hdir ?_).congr (hok ((hA.plain_iff hP).mpr hpl))
            intro hB
            -- `P` was there without `A`, or it is new and empty
            rcases hnew with rfl | hempty
            · exact FileSystem.node_of_not_present hA hl hno hB
            · exact hempty B
          | failed hpl =>
            rw [Option.map_some, if_neg (show ¬ (-1 : ℤ) = 0 by decide)]
            exact .failed fun h => hpl ((hA.plain_iff hP).mp h.1)

end Create

/-! ### The theorem -/

/-- Every directory that exists on the way of `path` may be read, written and searched, and so may
the one it starts in. -/
def WayAccessible (fs : FileSystem) (path : List UInt8) : Prop :=
  fs.node (fs.start path) = some (.dir true) ∧
    ∀ Q j, DirPrefix path Q j → fs.present Q → fs.accessible Q

/-- `create_parent_dir` returns 0, and the directory that `dirname` names then exists. -/
def CreatesParent (fs : FileSystem) (path : List UInt8) : Prop :=
  ∃ fs' d, createParentDir fs path = some (0, fs') ∧ dirname path false = some d ∧
    (fs'.locate (cStr d)).isSome

theorem not_dirPrefix_slashes {w Q : List UInt8} {j : ℕ} (hw : ∀ b ∈ w, b = slash) :
    ¬ DirPrefix w Q j := by
  rintro ⟨⟨R, hR, -, -⟩, hne, hlast⟩
  refine not_all_slash hne hlast fun x hx => hw x ?_
  rw [hR]
  exact mem_append_left _ hx

/-- The directory of the path is accessible from the start. -/
theorem createsParent_of_accessible {fs : FileSystem} {path d : List UInt8}
    (hd : dirname path false = some d) (hacc : fs.accessible (cStr d)) : CreatesParent fs path := by
  refine ⟨fs, d, ?_, hd, ?_⟩
  · rw [createParentDir, createParentDirFuel_succ, hd, Option.bind_some,
      createDirFuel_accessible _ hacc]
  · obtain ⟨l, hl, -⟩ := FileSystem.accessible_iff.mp hacc
    rw [hl]
    rfl

/-- **Creating the directory of a file.** For every path without zero bytes, of at most `2 ^ 31`
bytes, and every file system in which what exists of its directories is accessible,
`create_parent_dir` creates the directory exactly when every missing directory on the way is
followed by a single slash and is not called `.` or `..`. Otherwise it returns -1. -/
theorem create_parent_dir_iff {fs : FileSystem} {path : List UInt8} (h0 : 0 ∉ path)
    (hlen : path.length ≤ 2 ^ 31) (hway : WayAccessible fs path) :
    (CreatesParent fs path ↔ Plain fs path) ∧
      (¬ Plain fs path → ∃ fs', createParentDir fs path = some (-1, fs')) := by
  obtain ⟨hstart, hacc⟩ := hway
  -- on the easy ways nothing is missing and nothing is created
  have heasy : ∀ d, dirname path false = some d → fs.accessible (cStr d) → Plain fs path →
      (CreatesParent fs path ↔ Plain fs path) ∧
        (¬ Plain fs path → ∃ fs', createParentDir fs path = some (-1, fs')) := by
    intro d hd had hpl
    exact ⟨⟨fun _ => hpl, fun _ => createsParent_of_accessible hd had⟩, fun hno => absurd hpl hno⟩
  by_cases hs : ∀ b ∈ path, b = slash
  · refine heasy [slash] ((dirname_slashes hs hlen).1 false) ?_ ?_
    · refine FileSystem.accessible_iff.mpr ⟨[], rfl, ?_⟩
      have hroot : fs.start path = [] := by
        cases path with
        | nil => rfl
        | cons b path => exact if_pos (hs b mem_cons_self)
      rw [← hroot]
      exact hstart
    · exact fun Q j hQ => absurd hQ (not_dirPrefix_slashes hs)
  obtain ⟨P, k, B, t, h⟩ := exists_pathSplit hs
  by_cases hP : P = []
  · subst hP
    obtain ⟨d, hd, had⟩ := h.base hlen hstart
    exact heasy d hd had h.plain_base
  · obtain ⟨k, rfl⟩ : ∃ k', k = k' + 1 :=
      Nat.exists_eq_succ_of_ne_zero fun hk => hP (h.lead hk)
    obtain ⟨w, hw, hlev⟩ := h.level hP (h.nul_not_mem h0).1 hlen
    have hcount : P.count slash + k < path.length + 1 := by
      have hl := h.length
      have := count_le_length (a := slash) (l := P)
      omega
    have hstartP : fs.start P = fs.start path := by rw [h.eq, FileSystem.start_append hP]
    have hout := createDir_level hlev hcount (hstartP ▸ hstart)
      (fun Q j hQ => hacc Q j (h.dirPrefix_mono hQ)) (hacc P k (h.dirPrefix_self hP))
    have hrun : createParentDir fs path = createDirFuel (path.length + 1) fs w := by
      rw [createParentDir, createParentDirFuel_succ, hw, Option.bind_some]
    rw [← h.plain_iff hP, ← hrun] at hout
    unfold CreatesParent
    generalize createParentDir fs path = r at hout ⊢
    cases hout with
    | made hpl hloc _ _ =>
      refine ⟨⟨fun _ => hpl, fun _ => ⟨_, w, rfl, hw, ?_⟩⟩, fun hno => absurd hpl hno⟩
      rw [hlev.cStr_eq, hloc]
      rfl
    | failed hpl =>
      refine ⟨⟨?_, fun h => absurd h hpl⟩, fun _ => ⟨_, rfl⟩⟩
      rintro ⟨fs', d, heq, -⟩
      cases heq

/-- A file system with nothing but the root. -/
def bareRoot : FileSystem where
  node l := if l = [] then some (.dir true) else none
  cwd := []
  root := ⟨true, rfl⟩
  cwd_dir := ⟨true, rfl⟩
  closed := fun l x h => absurd (if_neg (by simp)) h

/-- `/a/b`. -/
def singleSlash : List UInt8 := [slash, 97, slash, 98]

/-- `/a//b`. -/
def doubleSlash : List UInt8 := [slash, 97, slash, slash, 98]

theorem create_parent_dir_singleSlash :
    (CreatesParent bareRoot singleSlash ↔ Plain bareRoot singleSlash) ∧
      (¬ Plain bareRoot singleSlash →
        ∃ fs', createParentDir bareRoot singleSlash = some (-1, fs')) := by
  refine create_parent_dir_iff (by decide) (by decide) ⟨rfl, ?_⟩
  have h : PathSplit singleSlash [slash, 97] 1 [98] 0 :=
    ⟨rfl, by simp, by decide, by decide, by simp⟩
  have h' : PathSplit [slash, 97] [] 1 [97] 0 := ⟨rfl, by simp, by decide, by simp, by simp⟩
  intro Q j hQ hp
  rcases h.dirPrefix_cases hQ with ⟨rfl, -⟩ | hQ'
  · exact absurd hp (by decide)
  · rcases h'.dirPrefix_cases hQ' with ⟨rfl, -⟩ | hQ''
    · exact absurd rfl hQ.ne
    · exact absurd hQ'' not_dirPrefix_nil

/-- With nothing but the root, `create_parent_dir` makes `/a` for `/a/b`. For `/a//b` it makes the
same directory and then fails to make it again. -/
theorem double_slash_fails :
    (createParentDir bareRoot singleSlash).map Prod.fst = some 0 ∧
      (createParentDir bareRoot doubleSlash).map Prod.fst = some (-1) ∧
      (createParentDir bareRoot doubleSlash).map (fun r => r.2.locate [slash, 97]) =
        some (some [[97]]) ∧
      ¬ CreatesParent bareRoot doubleSlash := by
  have hfail : (createParentDir bareRoot doubleSlash).map Prod.fst = some (-1) := by decide
  refine ⟨by decide, hfail, by decide, ?_⟩
  rintro ⟨fs', d, h, -⟩
  rw [h] at hfail
  revert hfail
  simp

end Spigeon
