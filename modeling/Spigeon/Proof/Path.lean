import Spigeon.Lib.Lists
import Spigeon.Spec.Path

/-!
# Splitting a path

A path that is not made of slashes only is `P`, a run of `k` slashes, a name and a run of
`t` slashes, where `P` does not end in a slash. The two scans of `dirname` and
`basename` stop at the borders of these parts, and `dirname` puts its zeros there without
shortening the string.
-/

namespace Spigeon

open CInt CStr List

/-- The last name `B` of the path `w`, with what stands before and behind it. -/
structure PathSplit (w P : List UInt8) (k : ℕ) (B : List UInt8) (t : ℕ) : Prop where
  eq : w = P ++ (replicate k slash ++ (B ++ replicate t slash))
  name : B ≠ []
  noSlash : slash ∉ B
  head : P.getLast? ≠ some slash
  lead : k = 0 → P = []

/-! ### The backward scans -/

theorem backWhile_eq {p : UInt8 → Bool} {s : List UInt8} {lo n k : ℕ} (hkn : k ≤ n)
    (hmid : ∀ i, k ≤ i → i < n → p (s.getD (lo + i) 0))
    (hstop : k = 0 ∨ ¬ p (s.getD (lo + (k - 1)) 0)) :
    backWhile p s lo n = lo + k - 1 := by
  induction n with
  | zero =>
    have : k = 0 := by omega
    subst this
    simp [backWhile]
  | succ n ih =>
    rw [backWhile]
    rcases Nat.lt_or_ge n k with h | h
    · -- the scan stops at once
      have hk : k = n + 1 := by omega
      subst hk
      rw [if_neg (by simpa using hstop)]
      omega
    · rw [if_pos (hmid n h (by omega))]
      exact ih h fun i hi hin => hmid i hi (by omega)

/-- A scan that enters at the end of `Y` leaves at the end of `X`. -/
theorem skipBack_append {p : UInt8 → Bool} {X Y Z : List UInt8} {lo : ℕ} (last : ℤ)
    (hlast : last = X.length + Y.length - 1) (hlo : lo ≤ X.length) (hY : ∀ y ∈ Y, p y)
    (hX : X.length = lo ∨ ∀ x, X.getLast? = some x → ¬ p x) :
    skipBack p (X ++ (Y ++ Z)) lo last = X.length - 1 := by
  subst hlast
  unfold skipBack
  split
  · have : Y.length = 0 := by omega
    omega
  · have hn : ((X.length : ℤ) + Y.length - 1 + 1 - lo).toNat = X.length - lo + Y.length := by omega
    rw [hn, backWhile_eq (k := X.length - lo) (by omega)]
    · omega
    · intro i hi hin
      have hiX : X.length ≤ lo + i := by omega
      have hiY : lo + i - X.length < Y.length := by omega
      rw [getD_eq_getElem?_getD, getElem?_append_right hiX, getElem?_append_left hiY,
        getElem?_eq_getElem hiY, Option.getD_some]
      exact hY _ (getElem_mem hiY)
    · rcases Nat.eq_or_lt_of_le hlo with h | h
      · exact Or.inl (by omega)
      · have hstop := hX.resolve_left (by omega)
        have hne : X ≠ [] := ne_nil_of_length_pos (by omega)
        obtain ⟨X', x, rfl⟩ := (eq_nil_or_concat' X).resolve_left hne
        have hi : lo + ((X' ++ [x]).length - lo - 1) = X'.length := by
          rw [length_append, length_singleton] at h ⊢
          omega
        rw [hi, append_assoc, getD_eq_getElem?_getD, getElem?_append_right le_rfl, Nat.sub_self]
        exact Or.inr (hstop x getLast?_concat)

theorem putNul_append {X Z : List UInt8} {y : UInt8} {i : ℤ} (hi : i = X.length) :
    putNul (X ++ y :: Z) i = some (X ++ 0 :: Z) := by
  subst hi
  rw [putNul, if_pos (by rw [length_append, length_cons]; omega), Int.toNat_natCast,
    set_append_right _ _ le_rfl, Nat.sub_self, set_cons_zero]

/-! ### The parts of a path -/

theorem exists_pathSplit {w : List UInt8} (hw : ¬ ∀ b ∈ w, b = slash) :
    ∃ P k B t, PathSplit w P k B t := by
  obtain ⟨p, T, hwp, hT, hp⟩ := exists_trailing (· = slash) w
  obtain ⟨A, B, hpA, hB, hA⟩ := exists_trailing (· ≠ slash) p
  obtain ⟨P, K, hAP, hK, hP⟩ := exists_trailing (· = slash) A
  have hrunT : T = replicate T.length slash := eq_replicate_iff.mpr ⟨rfl, hT⟩
  have hrunK : K = replicate K.length slash := eq_replicate_iff.mpr ⟨rfl, hK⟩
  refine ⟨P, K.length, B, T.length, ?_, ?_, ?_, ?_, ?_⟩
  · rw [← hrunT, ← hrunK, hwp, hpA, hAP, append_assoc, append_assoc]
  · -- without a name `p` would end both in a slash and not in one
    intro hB0
    rw [hB0, append_nil] at hpA
    rcases h : A.getLast? with - | x
    · rw [getLast?_eq_none_iff.mp h] at hpA
      rw [hpA, nil_append] at hwp
      exact hw fun b hb => hT b (hwp ▸ hb)
    · exact hA x h (hp x (hpA ▸ h))
  · exact fun h => hB _ h rfl
  · exact fun h => hP _ h rfl
  · intro hk
    rw [length_eq_zero_iff.mp hk, append_nil] at hAP
    rcases h : A.getLast? with - | x
    · rw [← hAP]
      exact getLast?_eq_none_iff.mp h
    · exact absurd (hP x (hAP ▸ h)) (hA x h)

section Parts

variable {w P B : List UInt8} {k t : ℕ}

theorem PathSplit.length (h : PathSplit w P k B t) : w.length = P.length + k + B.length + t := by
  rw [h.eq]
  simp only [length_append, length_replicate]
  omega

theorem PathSplit.name_pos (h : PathSplit w P k B t) : 0 < B.length := length_pos_iff.mpr h.name

theorem run_all (k : ℕ) : ∀ y ∈ replicate k slash, decide (y = slash) = true :=
  fun _ hy => decide_eq_true (eq_of_mem_replicate hy)

theorem PathSplit.name_all (h : PathSplit w P k B t) : ∀ y ∈ B, decide (y ≠ slash) = true :=
  fun _ hy => decide_eq_true fun hs => h.noSlash (hs ▸ hy)

/-- A scan over slashes stops at `P`. -/
theorem PathSplit.stop_head (h : PathSplit w P k B t) :
    ∀ x, P.getLast? = some x → ¬ decide (x = slash) = true := by
  intro x hx hs
  rw [of_decide_eq_true hs] at hx
  exact h.head hx

/-- A scan over slashes stops at the name. -/
theorem PathSplit.stop_name (h : PathSplit w P k B t) :
    ∀ x, (P ++ (replicate k slash ++ B)).getLast? = some x → ¬ decide (x = slash) = true := by
  intro x hx hs
  rw [← append_assoc, getLast?_append_of_ne_nil _ h.name, of_decide_eq_true hs] at hx
  exact h.noSlash (mem_of_getLast? hx)

/-- A scan over a name stops at the slashes before it, if there are any. -/
theorem PathSplit.stop_slashes (h : PathSplit w P k B t) :
    ∀ x, (P ++ replicate k slash).getLast? = some x → ¬ decide (x ≠ slash) = true := by
  intro x hx
  rcases Nat.eq_zero_or_pos k with rfl | hk
  · rw [h.lead rfl] at hx
    cases hx
  · rw [getLast?_append, getLast?_replicate, if_neg (by omega)] at hx
    simp [← Option.some.inj hx]

/-- The first scan stops at the end of the name. -/
theorem PathSplit.scan_slashes (h : PathSplit w P k B t) (hlen : w.length ≤ 2 ^ 31) :
    skipBack (· = slash) w 0 (toInt ((w.length : ℤ) - 1)) = P.length + k + B.length - 1 := by
  have hw := h.length
  have hsplit : w = (P ++ (replicate k slash ++ B)) ++ (replicate t slash ++ []) := by
    rw [h.eq]
    simp only [append_assoc, append_nil]
  have hX : (P ++ (replicate k slash ++ B)).length = P.length + k + B.length := by
    simp only [length_append, length_replicate]
    omega
  have hscan := skipBack_append (Z := []) ((w.length : ℤ) - 1)
    (by rw [hX, length_replicate]; omega) (Nat.zero_le _) (run_all t) (Or.inr h.stop_name)
  rw [← hsplit, hX] at hscan
  rw [toInt_of_range (by omega) (by omega)]
  exact_mod_cast hscan

/-- The second scan stops before the name. -/
theorem PathSplit.scan_name (h : PathSplit w P k B t) :
    skipBack (· ≠ slash) w 0 (P.length + k + B.length - 1) = P.length + k - 1 := by
  have hsplit : w = (P ++ replicate k slash) ++ (B ++ replicate t slash) := by
    rw [h.eq, append_assoc]
  have hX : (P ++ replicate k slash).length = P.length + k := by
    rw [length_append, length_replicate]
  have hscan := skipBack_append (Z := replicate t slash) (P.length + k + B.length - 1)
    (by rw [hX]; omega) (Nat.zero_le _) h.name_all (Or.inr h.stop_slashes)
  rw [← hsplit, hX] at hscan
  exact_mod_cast hscan

/-- `dirname` of a path with a name, after its two scans. -/
theorem PathSplit.dirname_eq (h : PathSplit w P k B t) (hlen : w.length ≤ 2 ^ 31) (r : Bool) :
    dirname w r =
      if (P.length + k : ℤ) = 0 then dropLastSlash [dot, slash] 1 r
      else dropLastSlash (P ++ (replicate k slash ++ 0 :: (B.tail ++ replicate t slash)))
        (P.length + k - 1) r := by
  have hpos := h.name_pos
  have hB : B = B.head h.name :: B.tail := (cons_head_tail h.name).symm
  have hw : w = (P ++ replicate k slash) ++ B.head h.name :: (B.tail ++ replicate t slash) := by
    conv_lhs => rw [h.eq, hB]
    simp only [append_assoc, cons_append]
  have hX : (P ++ replicate k slash).length = P.length + k := by
    rw [length_append, length_replicate]
  unfold dirname
  simp only
  rw [h.scan_slashes hlen, if_neg (by omega), h.scan_name]
  by_cases hk : (P.length + k : ℤ) = 0
  · rw [if_pos (by omega), if_pos hk]
  · rw [if_neg (by omega), if_neg hk]
    conv_lhs => rw [hw]
    rw [putNul_append (by rw [hX]; omega), Option.bind_some, append_assoc]

theorem PathSplit.dirname_reserve (h : PathSplit w P (k + 1) B t) (hlen : w.length ≤ 2 ^ 31) :
    dirname w true =
      some (P ++ (replicate (k + 1) slash ++ 0 :: (B.tail ++ replicate t slash))) := by
  rw [h.dirname_eq hlen, if_neg (by omega)]
  rfl

/-- Without the last slashes a second zero goes to the end of `P`. -/
theorem PathSplit.dirname_cut (h : PathSplit w P (k + 1) B t) (hlen : w.length ≤ 2 ^ 31)
    (hP : P ≠ []) :
    dirname w false =
      some (P ++ 0 :: (replicate k slash ++ 0 :: (B.tail ++ replicate t slash))) := by
  have hP1 : 1 ≤ P.length := length_pos_iff.mpr hP
  rw [h.dirname_eq hlen, if_neg (by omega), dropLastSlash, if_neg Bool.false_ne_true,
    skipBack_append _ (by rw [length_replicate]) hP1 (run_all _) (Or.inr h.stop_head),
    replicate_succ, cons_append, putNul_append (by omega)]

/-- Below the root the first slash stays. -/
theorem PathSplit.dirname_root (h : PathSplit w [] (k + 1) B t) (hlen : w.length ≤ 2 ^ 31) :
    ∃ rest, dirname w false = some ([slash] ++ 0 :: rest) := by
  rw [h.dirname_eq hlen, if_neg (by omega), dropLastSlash, if_neg Bool.false_ne_true,
    nil_append, replicate_succ, cons_append, ← singleton_append,
    skipBack_append _ (by rw [length_replicate]; simp) (by simp) (run_all k)
      (Or.inl length_singleton)]
  cases k with
  | zero => exact ⟨_, putNul_append (by simp)⟩
  | succ k =>
    rw [replicate_succ, cons_append]
    exact ⟨_, putNul_append (X := [slash]) (by simp)⟩

theorem PathSplit.dirname_here (h : PathSplit w [] 0 B t) (hlen : w.length ≤ 2 ^ 31) (r : Bool) :
    dirname w r = some (if r then [dot, slash] else [dot, 0]) := by
  rw [h.dirname_eq hlen, if_pos (by decide)]
  cases r <;> decide

theorem PathSplit.basename_eq (h : PathSplit w P k B t) (hlen : w.length ≤ 2 ^ 31) :
    basename w = some B := by
  have hpos := h.name_pos
  have hw := h.length
  have hX : (P ++ replicate k slash).length = P.length + k := by
    rw [length_append, length_replicate]
  unfold basename
  simp only
  rw [h.scan_slashes hlen, if_neg (by omega), h.scan_name, substr,
    toSize_of_range (by omega) (by omega), toSize_of_range (by omega) (by omega),
    if_pos (by omega), h.eq, ← append_assoc, drop_left' (by rw [hX]; omega),
    take_left' (by omega)]

end Parts

theorem dirname_slashes {w : List UInt8} (hw : ∀ b ∈ w, b = slash) (hlen : w.length ≤ 2 ^ 31) :
    (∀ r, dirname w r = some [slash]) ∧ basename w = some [slash] := by
  have hscan : skipBack (· = slash) w 0 (toInt ((w.length : ℤ) - 1)) = -1 := by
    rw [toInt_of_range (by omega) (by omega)]
    have := skipBack_append (p := (· = slash)) (X := []) (Y := w) (Z := [])
      ((w.length : ℤ) - 1) (by simp) (Nat.zero_le _)
      (fun y hy => decide_eq_true (hw y hy)) (Or.inl rfl)
    simpa using this
  constructor
  · intro r
    unfold dirname
    simp only
    rw [hscan, if_pos rfl]
  · unfold basename
    simp only
    rw [hscan, if_pos rfl]

/-! ### The decomposition of a path -/

/-- A path without its trailing slashes, but for a single one that stands for the root. -/
def cutSlashes (d : List UInt8) : List UInt8 :=
  if d.rdropWhile (· = slash) = [] then d.take 1 else d.rdropWhile (· = slash)

/-- What `dirname` and `basename` promise for `path`, with their results compared through `view`:
the identity for `std::string` values, `cStr` for what a caller of `c_str()` sees. -/
def Decomposes (view : List UInt8 → List UInt8) (path : List UInt8) : Prop :=
  let p := path.rdropWhile (· = slash)
  if p = [] then
    (∀ r, (dirname path r).map view = some [slash]) ∧ (basename path).map view = some [slash]
  else
    ∃ d d' b, (dirname path true).map view = some d ∧ (dirname path false).map view = some d' ∧
      (basename path).map view = some b ∧ b = p.rtakeWhile (· ≠ slash) ∧
      d ++ b = (if slash ∈ p then p else [dot, slash] ++ p) ∧ d' = cutSlashes d

section Parts

variable {w P B : List UInt8} {k t : ℕ}

theorem PathSplit.rdropWhile_eq (h : PathSplit w P k B t) :
    w.rdropWhile (· = slash) = P ++ (replicate k slash ++ B) := by
  have hw : w = (P ++ (replicate k slash ++ B)) ++ replicate t slash := by
    rw [h.eq]
    simp only [append_assoc]
  rw [hw, rdropWhile_append (run_all t) h.stop_name]

theorem PathSplit.rtakeWhile_eq (h : PathSplit w P k B t) :
    (P ++ (replicate k slash ++ B)).rtakeWhile (· ≠ slash) = B := by
  rw [← append_assoc, rtakeWhile_append h.name_all h.stop_slashes]

theorem PathSplit.cutSlashes_eq (h : PathSplit w P (k + 1) B t) :
    cutSlashes (P ++ replicate (k + 1) slash) = if P = [] then [slash] else P := by
  have hcut : (P ++ replicate (k + 1) slash).rdropWhile (· = slash) = P :=
    rdropWhile_append (run_all _) h.stop_head
  unfold cutSlashes
  rw [hcut]
  by_cases hP : P = []
  · rw [if_pos hP, if_pos hP, hP, nil_append, replicate_succ]
    rfl
  · rw [if_neg hP, if_neg hP]

theorem PathSplit.nul_not_mem (h : PathSplit w P k B t) (h0 : 0 ∉ w) : 0 ∉ P ∧ 0 ∉ B := by
  rw [h.eq] at h0
  simp only [mem_append, not_or] at h0
  exact ⟨h0.1, h0.2.2.1⟩

/-- What a caller of `c_str()` sees of the directory. -/
theorem PathSplit.decomposes_cStr (h : PathSplit w P k B t) (hlen : w.length ≤ 2 ^ 31)
    (h0 : 0 ∉ w) : Decomposes cStr w := by
  obtain ⟨hP0, hB0⟩ := h.nul_not_mem h0
  have hs0 : (0 : UInt8) ≠ slash := by decide
  unfold Decomposes
  simp only
  rw [h.rdropWhile_eq, if_neg (by simp [h.name]), h.basename_eq hlen, h.rtakeWhile_eq]
  cases k with
  | zero =>
    obtain rfl := h.lead rfl
    refine ⟨[dot, slash], [dot], B, ?_, ?_, ?_, rfl, ?_, by decide⟩
    · rw [h.dirname_here hlen]
      decide
    · rw [h.dirname_here hlen]
      decide
    · rw [Option.map_some, cStr_eq_self hB0]
    · rw [replicate_zero, nil_append, nil_append, if_neg h.noSlash]
  | succ k =>
    refine ⟨P ++ replicate (k + 1) slash, if P = [] then [slash] else P, B, ?_, ?_, ?_, rfl, ?_,
      h.cutSlashes_eq.symm⟩
    · rw [h.dirname_reserve hlen, Option.map_some, ← append_assoc, cStr_append_nul]
      simp [hP0, hs0]
    · by_cases hP : P = []
      · subst hP
        obtain ⟨rest, hrest⟩ := h.dirname_root hlen
        rw [hrest, Option.map_some, cStr_append_nul _ (by decide), if_pos rfl]
      · rw [h.dirname_cut hlen hP, Option.map_some, cStr_append_nul _ hP0, if_neg hP]
    · rw [Option.map_some, cStr_eq_self hB0]
    · rw [if_pos (by simp), append_assoc]

/-- As a `std::string` the directory keeps the length of the path, or the dot a zero. -/
theorem PathSplit.not_decomposes (h : PathSplit w P k B t) (hlen : w.length ≤ 2 ^ 31) :
    ¬ Decomposes id w := by
  unfold Decomposes
  simp only [Option.map_id_fun, id_eq]
  rw [h.rdropWhile_eq, if_neg (by simp [h.name]), h.basename_eq hlen]
  rintro ⟨d, d', b, hd, hd', hb, -, hcat, hcut⟩
  cases k with
  | zero =>
    obtain rfl := h.lead rfl
    rw [h.dirname_here hlen, Option.some.injEq] at hd hd'
    rw [← hd, ← hd'] at hcut
    revert hcut
    decide
  | succ k =>
    -- the zeros shorten nothing, so the name would have to be empty
    have hpos := h.name_pos
    rw [h.dirname_reserve hlen, Option.some.injEq] at hd
    rw [if_pos (by simp), ← hd, ← Option.some.inj hb] at hcat
    have := congrArg List.length hcat
    simp only [length_append, length_replicate, length_cons, length_tail] at this
    omega

end Parts

/-- **The parts of a path.** For every path without zero bytes, of at most `2 ^ 31` bytes, the last
name is right as a `std::string`, and the whole decomposition is right for callers of `c_str()`. As
`std::string` values the directories are right for the paths of slashes only. -/
theorem dirname_basename_iff {path : List UInt8} (h0 : 0 ∉ path) (hlen : path.length ≤ 2 ^ 31) :
    (Decomposes id path ↔ ∀ b ∈ path, b = slash) ∧ Decomposes cStr path ∧
      basename path = some (if path.rdropWhile (· = slash) = [] then [slash]
        else (path.rdropWhile (· = slash)).rtakeWhile (· ≠ slash)) := by
  by_cases hs : ∀ b ∈ path, b = slash
  · have hp : path.rdropWhile (· = slash) = [] := by
      rw [rdropWhile_eq_nil_iff]
      exact fun b hb => decide_eq_true (hs b hb)
    obtain ⟨hdir, hbase⟩ := dirname_slashes hs hlen
    have hall : ∀ view : List UInt8 → List UInt8, view [slash] = [slash] → Decomposes view path := by
      intro view hview
      unfold Decomposes
      simp only
      rw [if_pos hp, hbase, Option.map_some, hview]
      exact ⟨fun r => by rw [hdir r, Option.map_some, hview], rfl⟩
    refine ⟨⟨fun _ => hs, fun _ => hall id rfl⟩, hall cStr (by decide), ?_⟩
    rw [if_pos hp, hbase]
  · obtain ⟨P, k, B, t, h⟩ := exists_pathSplit hs
    refine ⟨⟨fun hd => absurd hd (h.not_decomposes hlen), fun hs' => absurd hs' hs⟩,
      h.decomposes_cStr hlen h0, ?_⟩
    rw [h.rdropWhile_eq, if_neg (by simp [h.name]), h.rtakeWhile_eq, h.basename_eq hlen]

/-- The absolute path `/abc`. -/
def rootedName : List UInt8 := [slash, 97, 98, 99]

theorem dirname_basename_rootedName :
    (Decomposes id rootedName ↔ ∀ b ∈ rootedName, b = slash) ∧ Decomposes cStr rootedName ∧
      basename rootedName = some (if rootedName.rdropWhile (· = slash) = [] then [slash]
        else (rootedName.rdropWhile (· = slash)).rtakeWhile (· ≠ slash)) :=
  dirname_basename_iff (by decide) (by decide)

/-- The directory of `/abc` is four bytes long, and with the name they are seven. -/
theorem dirname_keeps_length :
    dirname rootedName true = some [slash, 0, 98, 99] ∧ basename rootedName = some [97, 98, 99] ∧
      ¬ Decomposes id rootedName := by
  refine ⟨by decide, by decide, ?_⟩
  have h : PathSplit rootedName [] 1 [97, 98, 99] 0 := ⟨rfl, by simp, by decide, by simp, by simp⟩
  exact h.not_decomposes (by decide)

end Spigeon
