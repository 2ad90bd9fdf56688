import Mathlib.Tactic.Linarith
import Spigeon.Proof.Config
import Spigeon.Spec.Options

/-!
# What the numeric setters store

The setters ask `timetoll` and `memtoll` for a value without asking for their error, `atoi` has
none to give, and all three then write as many bytes as a `long long` or an `int` has. So they
accept every argument, and the value is right for the numbers that every step keeps: the field
can hold it, the digits fit the copy of 128 bytes and a `long long`, and the constant of the unit
is what it stands for.
-/

namespace Spigeon

open CInt CStr Memory

/-! ### Numbers -/

/-- `a` is a number and `u`: a sign that is allowed, digits, and the rest. -/
structure IsNumber (plus minus : Bool) (a : List UInt8) (z : ℤ) (u : List UInt8) : Prop where
  parts : ∃ sg ds, a = sg ++ (ds ++ u) ∧ ds ≠ [] ∧ (∀ b ∈ ds, isDigit b) ∧
    ((sg = [] ∧ z = digitsVal ds) ∨ (minus ∧ sg = [45] ∧ z = -digitsVal ds) ∨
      (plus ∧ sg = [43] ∧ z = digitsVal ds))

/-- The number `z` and the unit `e` that an argument stands for. -/
def Setter.Denotes (arg : List UInt8) (z : ℤ) (e : UnitOf) : Setter → Prop
  | .usec => e ∈ timeUnits ∧ ∃ u, IsNumber false false arg z u ∧ caseEq u e.name
  | .mem => e ∈ memUnits ∧ ∃ u, IsNumber false true arg z u ∧ caseEq u e.name
  | .num => e = ⟨[], 1, 1⟩ ∧ IsNumber true true arg z []
  | .str => False
  | .flag => False

/-- The numbers that a field can hold. -/
def SlotType.Fits (v : ℤ) : SlotType → Prop
  | .charPtr => 0 ≤ v ∧ v < 2 ^ 64
  | .uint16 => 0 ≤ v ∧ v < 2 ^ 16
  | .int32 => -2 ^ 31 ≤ v ∧ v < 2 ^ 31
  | .bool => 0 ≤ v ∧ v < 2
  | .uint64 => 0 ≤ v ∧ v < 2 ^ 64

section Scan

variable {ds u : List UInt8}

theorem isDigit_not_space {b : UInt8} (h : isDigit b) : isSpace b = false ∧ b ≠ 45 ∧ b ≠ 43 := by
  unfold isDigit at h
  unfold isSpace
  grind

theorem takeWhile_digits (hds : ∀ b ∈ ds, isDigit b) (hu : ∀ b, u.head? = some b → ¬ isDigit b) :
    (ds ++ u).takeWhile isDigit = ds := by
  rw [List.takeWhile_append_of_pos hds]
  cases u with
  | nil => rw [List.takeWhile_nil, List.append_nil]
  | cons b u => rw [List.takeWhile_cons_of_neg (hu b rfl), List.append_nil]

theorem strtoll_digits (hne : ds ≠ []) (hds : ∀ b ∈ ds, isDigit b) :
    strtoll ds = clamp64 (digitsVal ds) := by
  obtain ⟨b, t, rfl⟩ := List.exists_cons_of_ne_nil hne
  obtain ⟨hs, hminus, hplus⟩ := isDigit_not_space (hds b List.mem_cons_self)
  rw [strtoll, List.dropWhile_cons_of_neg (by simp [hs])]
  simp only
  rw [if_neg hminus, if_neg hplus, List.takeWhile_eq_self_iff.mpr hds]

end Scan

/-- What `strtoll` makes of a number. -/
theorem IsNumber.strtoll {plus minus : Bool} {a u : List UInt8} {z : ℤ}
    (h : IsNumber plus minus a z u) :
    strtoll (a.take (a.length - u.length)) = clamp64 z := by
  obtain ⟨sg, ds, rfl, hne, hds, hsign⟩ := h.parts
  have htake : (sg ++ (ds ++ u)).take ((sg ++ (ds ++ u)).length - u.length) = sg ++ ds := by
    rw [← List.append_assoc, List.take_left' (by simp only [List.length_append]; omega)]
  have hall : ds.takeWhile isDigit = ds := List.takeWhile_eq_self_iff.mpr hds
  rw [htake]
  rcases hsign with ⟨rfl, rfl⟩ | ⟨-, rfl, rfl⟩ | ⟨-, rfl, rfl⟩
  · exact strtoll_digits hne hds
  · show clamp64 (-digitsVal (ds.takeWhile isDigit)) = _
    rw [hall]
  · show clamp64 (digitsVal (ds.takeWhile isDigit)) = _
    rw [hall]

/-! ### Units -/

/-- What the tables of units have in common: no name starts with a digit, and only one constant in
them is not what it stands for, by `2 ^ 32`. -/
structure UnitsOK (units : List UnitOf) : Prop where
  head : ∀ e ∈ units, (e.name.head?.map toLower).all fun c => !isDigit c
  unique : ∀ e ∈ units, ∀ e' ∈ units, caseEq e.name e'.name → e = e'
  mul : ∀ e ∈ units, (1 ≤ e.value ∧ e.mul = e.value) ∨ (2 ≤ e.value ∧ e.mul = e.value - 2 ^ 32)

theorem timeUnits_ok : UnitsOK timeUnits := ⟨by decide, by decide, by decide⟩

theorem memUnits_ok : UnitsOK memUnits := ⟨by decide, by decide, by decide⟩

section Units

variable {units : List UnitOf} {e : UnitOf} {u : List UInt8}

theorem UnitsOK.head_not_digit (h : UnitsOK units) (he : e ∈ units) (hu : caseEq u e.name) :
    ∀ b, u.head? = some b → ¬ isDigit b := by
  intro b hb hdig
  have hlow : toLower b = b := by
    unfold isDigit at hdig
    unfold toLower
    grind
  have hmap : u.map toLower = e.name.map toLower := of_decide_eq_true hu
  have hhead : e.name.head?.map toLower = some b := by
    rw [← List.head?_map, ← hmap, List.head?_map, hb, Option.map_some, hlow]
  have := h.head e he
  rw [hhead] at this
  simp [hdig] at this

theorem UnitsOK.find (h : UnitsOK units) (he : e ∈ units) (hu : caseEq u e.name) :
    units.find? (fun e => caseEq u e.name) = some e := by
  cases hf : units.find? (fun e => caseEq u e.name) with
  | none => exact absurd hu (by simpa using List.find?_eq_none.mp hf e he)
  | some e' =>
    have hu' : caseEq u e'.name := List.find?_some (p := fun e : UnitOf => caseEq u e.name) hf
    have hsame : caseEq e'.name e.name :=
      decide_eq_true ((of_decide_eq_true hu').symm.trans (of_decide_eq_true hu))
    rw [h.unique e' (List.mem_of_find?_eq_some hf) e he hsame]

end Units

/-- A number is read up to its unit. -/
theorem IsNumber.scanDigits {a u : List UInt8} {z : ℤ} (h : IsNumber false false a z u)
    (hu : ∀ b, u.head? = some b → ¬ isDigit b) : scanDigits a = a.length - u.length := by
  obtain ⟨sg, ds, rfl, -, hds, ⟨rfl, -⟩ | ⟨hno, -⟩ | ⟨hno, -⟩⟩ := h.parts
  · rw [List.nil_append, Spigeon.scanDigits, takeWhile_digits hds hu, List.length_append]
    omega
  · cases hno
  · cases hno

theorem IsNumber.scanSigned {a u : List UInt8} {z : ℤ} (h : IsNumber false true a z u)
    (hu : ∀ b, u.head? = some b → ¬ isDigit b) : scanSigned a = a.length - u.length := by
  obtain ⟨sg, ds, rfl, hne, hds, ⟨rfl, -⟩ | ⟨-, rfl, -⟩ | ⟨hno, -⟩⟩ := h.parts
  · obtain ⟨b, ds, rfl⟩ := List.exists_cons_of_ne_nil hne
    have hb := (isDigit_not_space (hds b List.mem_cons_self)).2.1
    rw [List.nil_append, List.cons_append, Spigeon.scanSigned, if_neg hb, Spigeon.scanDigits,
      ← List.cons_append, takeWhile_digits hds hu, List.length_append]
    omega
  · rw [List.singleton_append, Spigeon.scanSigned, if_pos rfl, Spigeon.scanDigits,
      takeWhile_digits hds hu, List.length_cons, List.length_append]
    omega
  · cases hno

/-! ### The value that is stored -/

/-- The steps of `timetoll` and `memtoll` that keep the number `z` with the unit `e`, when `n` bytes
stand before the unit. -/
def ReadsExactly (n : ℕ) (z : ℤ) (e : UnitOf) : Prop :=
  (128 ≤ n ∧ z * e.value = 2 ^ 63 - 1) ∨
    (n < 128 ∧ z < 2 ^ 63 ∧ (e.mul = e.value ∨ 2 ^ 32 ∣ z))

theorem toSize_toInt64 (z : ℤ) : (toSize (toInt64 z) : ℤ) = z % 2 ^ 64 := by
  rw [toSize, toInt64_emod, Int.toNat_of_nonneg (Int.emod_nonneg _ (by norm_num))]

/-- The product is right modulo `2 ^ 64`. -/
theorem product_iff {z : ℤ} {e : UnitOf} (hfit : 0 ≤ z * e.value ∧ z * e.value < 2 ^ 64)
    (hmul : (1 ≤ e.value ∧ e.mul = e.value) ∨ (2 ≤ e.value ∧ e.mul = e.value - 2 ^ 32)) :
    clamp64 z * e.mul % 2 ^ 64 = z * e.value ↔ z < 2 ^ 63 ∧ (e.mul = e.value ∨ 2 ^ 32 ∣ z) := by
  have hpos : 0 < e.value := by omega
  have hz : 0 ≤ z := by
    by_contra hneg
    have := mul_neg_of_neg_of_pos (not_le.mp hneg) hpos
    omega
  rcases lt_or_ge z (2 ^ 63) with hlt | hge
  · have hclamp : clamp64 z = z := by
      unfold clamp64
      omega
    rw [hclamp]
    rcases hmul with ⟨-, hm⟩ | ⟨-, hm⟩
    · rw [hm, Int.emod_eq_of_lt hfit.1 hfit.2]
      exact ⟨fun _ => ⟨hlt, Or.inl rfl⟩, fun _ => rfl⟩
    · have hsub : z * e.mul = z * e.value - z * 2 ^ 32 := by rw [hm]; ring
      have hne : e.mul ≠ e.value := by omega
      -- the product lacks `z * 2 ^ 32`, which must be a multiple of `2 ^ 64`
      rw [hsub]
      generalize z * e.value = v at hfit ⊢
      constructor
      · intro h
        exact ⟨hlt, Or.inr (by omega)⟩
      · rintro ⟨-, h | h⟩
        · exact absurd h hne
        · omega
  · -- the number was cut to `2 ^ 63 - 1`, and its unit is 1
    have hv : e.value = 1 := by
      by_contra hne
      have : 2 ≤ e.value := by omega
      have := mul_le_mul hge this (by norm_num) hz
      omega
    have hm : e.mul = 1 := by omega
    have hclamp : clamp64 z = 2 ^ 63 - 1 := by
      unfold clamp64
      omega
    rw [hclamp, hm, hv]
    constructor
    · intro h
      norm_num at h
      omega
    · intro h
      omega

/-- What `timetoll` and `memtoll` return for a number with a unit, as the field holds it. -/
theorem unitstoll_iff {scan : List UInt8 → ℕ} {units : List UnitOf} {a : List UInt8} {z : ℤ}
    {e : UnitOf} {minus : Bool} (hok : UnitsOK units)
    (hden : e ∈ units ∧ ∃ u, IsNumber false minus a z u ∧ caseEq u e.name)
    (hscan : ∀ u, IsNumber false minus a z u → (∀ b, u.head? = some b → ¬ isDigit b) →
      scan a = a.length - u.length)
    (hlen : a.length < 2 ^ 31) (hfit : 0 ≤ z * e.value ∧ z * e.value < 2 ^ 64) :
    (toSize (unitstoll scan units a).1 : ℤ) = z * e.value ↔ ReadsExactly (scan a) z e := by
  obtain ⟨he, u, hnum, hu⟩ := hden
  replace hscan := hscan u hnum (hok.head_not_digit he hu)
  have hdrop : a.drop (scan a) = u := by
    obtain ⟨sg, ds, rfl, -⟩ := hnum.parts
    rw [hscan, ← List.append_assoc, List.drop_left' (by simp only [List.length_append]; omega)]
  have hmod : scan a % 2 ^ 32 = scan a := Nat.mod_eq_of_lt (by omega)
  unfold unitstoll ReadsExactly
  simp only
  rw [hdrop, hok.find he hu, hmod, Option.elim_some]
  by_cases hn : 128 ≤ scan a
  · -- the result is `LLONG_MAX`, whatever the digits are
    rw [if_pos hn]
    have hmax : (toSize (2 ^ 63 - 1) : ℤ) = 2 ^ 63 - 1 := by decide
    rw [hmax]
    constructor
    · exact fun h => Or.inl ⟨hn, h.symm⟩
    · rintro (⟨-, h⟩ | ⟨h, -⟩)
      · exact h.symm
      · omega
  · rw [if_neg hn, toSize_toInt64, hscan, hnum.strtoll, product_iff hfit (hok.mul e he), ← hscan]
    constructor
    · exact fun h => Or.inr ⟨by omega, h⟩
    · rintro (⟨h, -⟩ | ⟨-, h⟩)
      · exact absurd h hn
      · exact h

/-! ### The setters -/

/-- How many bytes `timetoll` and `memtoll` take for the number. -/
def Setter.scanned (arg : List UInt8) : Setter → ℕ
  | .usec => scanDigits arg
  | .mem => scanSigned arg
  | .num => 0
  | .str => 0
  | .flag => 0

def Setter.numeric : Setter → Bool
  | .num => true
  | .usec => true
  | .mem => true
  | .str => false
  | .flag => false

/-- What is expected of the setter of `s` with the argument `arg`, with others behind it: a number
that the field can hold is accepted and stored, everything else is an error and changes nothing. -/
def SetsExactly (dup : List UInt8 → ℕ) (s : Slot) (arg : List UInt8) (rest : List (List UInt8))
    (conf : Mem) : Prop :=
  (∃ z e conf', s.setter.Denotes arg z e ∧ s.type.Fits (z * e.value) ∧
    s.setter.run dup (arg :: rest).length (arg :: rest) s.offset conf = some (conf', configOk) ∧
    s.type.read conf' s.offset = z * e.value) ∨
  ((¬ ∃ z e, s.setter.Denotes arg z e ∧ s.type.Fits (z * e.value)) ∧
    ∃ conf', s.setter.run dup (arg :: rest).length (arg :: rest) s.offset conf =
      some (conf', configError) ∧ s.type.read conf' s.offset = s.type.read conf s.offset)

/-- The argument is a number that the field can hold, and that the setter keeps. -/
def Representable (s : Slot) (arg : List UInt8) : Prop :=
  ∃ z e, s.setter.Denotes arg z e ∧ s.type.Fits (z * e.value) ∧
    (s.setter = .num ∨ ReadsExactly (s.setter.scanned arg) z e)

theorem withArg_cons (set : List UInt8 → ℕ → Mem → Mem × ℤ) {arg : List UInt8} (h0 : 0 ∉ arg)
    (rest : List (List UInt8)) (offset : ℕ) (conf : Mem) :
    withArg set (arg :: rest).length (arg :: rest) offset conf = some (set arg offset conf) := by
  rw [withArg, if_neg (by rw [List.length_cons]; omega), List.head?_cons, Option.map_some,
    cStr_eq_self h0]

/-- The three numeric setters accept whatever their argument is. -/
theorem run_usec (dup : List UInt8 → ℕ) {arg : List UInt8} (h0 : 0 ∉ arg)
    (rest : List (List UInt8)) (offset : ℕ) (conf : Mem) :
    Setter.usec.run dup (arg :: rest).length (arg :: rest) offset conf =
      some (store conf offset 8 (toSize (timetoll arg).1), configOk) := by
  rw [Setter.run, confSetUsecSlot, withArg_cons _ h0]

theorem run_mem (dup : List UInt8 → ℕ) {arg : List UInt8} (h0 : 0 ∉ arg)
    (rest : List (List UInt8)) (offset : ℕ) (conf : Mem) :
    Setter.mem.run dup (arg :: rest).length (arg :: rest) offset conf =
      some (store conf offset 8 (toSize (memtoll arg).1), configOk) := by
  rw [Setter.run, confSetMemSlot, withArg_cons _ h0]

theorem run_num (dup : List UInt8 → ℕ) {arg : List UInt8} (h0 : 0 ∉ arg)
    (rest : List (List UInt8)) (offset : ℕ) (conf : Mem) :
    Setter.num.run dup (arg :: rest).length (arg :: rest) offset conf =
      some (store conf offset 4 (toSize (atoi arg)), configOk) := by
  rw [Setter.run, confSetNumSlot, withArg_cons _ h0]

/-- A setter that always accepts is right exactly when what it stores is. -/
theorem setsExactly_iff {dup : List UInt8 → ℕ} {s : Slot} {arg : List UInt8}
    {rest : List (List UInt8)} {conf conf' : Mem}
    (hrun : s.setter.run dup (arg :: rest).length (arg :: rest) s.offset conf =
      some (conf', configOk)) :
    SetsExactly dup s arg rest conf ↔ ∃ z e, s.setter.Denotes arg z e ∧
      s.type.Fits (z * e.value) ∧ s.type.read conf' s.offset = z * e.value := by
  unfold SetsExactly
  rw [hrun]
  constructor
  · rintro (⟨z, e, conf₁, hden, hfit, heq, hread⟩ | ⟨-, conf₁, heq, -⟩)
    · cases heq
      exact ⟨z, e, hden, hfit, hread⟩
    · cases heq
  · rintro ⟨z, e, hden, hfit, hread⟩
    exact Or.inl ⟨z, e, conf', hden, hfit, rfl, hread⟩

/-- The types of the fields behind the numeric setters. -/
theorem serverSlots_types : ∀ s ∈ serverSlots,
    (s.setter = .usec → s.type = .uint64) ∧ (s.setter = .mem → s.type = .uint64) ∧
      (s.setter = .num → s.type = .uint16 ∨ s.type = .int32) := by
  decide

theorem read_uint64 (conf : Mem) (offset : ℕ) (z : ℤ) :
    SlotType.uint64.read (store conf offset 8 (toSize z)) offset = toSize z := by
  rw [SlotType.read, load_store _ _ _ le_rfl, Nat.mod_eq_of_lt]
  unfold toSize
  omega

/-- A number that fits comes out of the `int` that was written, even where the field is shorter. -/
theorem read_num {type : SlotType} (htype : type = .uint16 ∨ type = .int32) {arg : List UInt8}
    {z : ℤ} (hfit : type.Fits z) (hnum : IsNumber true true arg z []) {conf : Mem} {offset : ℕ} :
    type.read (store conf offset 4 (toSize (atoi arg))) offset = z := by
  have hstr : strtoll arg = clamp64 z := by
    have := hnum.strtoll
    rwa [List.length_nil, Nat.sub_zero, List.take_length] at this
  have hrange : -2 ^ 31 ≤ z ∧ z < 2 ^ 31 := by
    rcases htype with rfl | rfl <;> simp only [SlotType.Fits] at hfit <;> omega
  have hatoi : atoi arg = z := by
    have hclamp : clamp64 z = z := by
      unfold clamp64
      omega
    rw [atoi, hstr, hclamp, toInt_of_range hrange.1 hrange.2]
  rw [hatoi]
  rcases htype with rfl | rfl
  · simp only [SlotType.Fits] at hfit
    rw [SlotType.read, load_store _ _ _ (by norm_num), toSize_of_range hfit.1 (by omega)]
    omega
  · rw [SlotType.read, load_store _ _ _ le_rfl]
    unfold toSize toInt
    dsimp only
    split <;> omega

/-- **The numeric options.** For every numeric slot of `server_cmd_table` and every argument string
shorter than `2 ^ 31` bytes, the setter accepts and stores what it should, and rejects the rest,
exactly when the argument is a number that the field can hold and that the setter keeps. -/
theorem numeric_setters_iff {s : Slot} (hs : s ∈ serverSlots) (hnum : s.setter.numeric)
    {arg : List UInt8} (h0 : 0 ∉ arg) (hlen : arg.length < 2 ^ 31) (dup : List UInt8 → ℕ)
    (rest : List (List UInt8)) (conf : Mem) :
    SetsExactly dup s arg rest conf ↔ Representable s arg := by
  obtain ⟨name, setter, offset, type⟩ := s
  obtain ⟨husec, hmem, hint⟩ := serverSlots_types _ hs
  simp only at hnum husec hmem hint
  cases setter with
  | str => cases hnum
  | flag => cases hnum
  | usec =>
    obtain rfl := husec rfl
    rw [setsExactly_iff (run_usec dup h0 rest offset conf)]
    refine exists₂_congr fun z e => and_congr_right fun hden => and_congr_right fun hfit => ?_
    rw [read_uint64]
    have hval := unitstoll_iff timeUnits_ok hden (fun u hnum => hnum.scanDigits) hlen hfit
    exact hval.trans (by simp [Setter.scanned])
  | mem =>
    obtain rfl := hmem rfl
    rw [setsExactly_iff (run_mem dup h0 rest offset conf)]
    refine exists₂_congr fun z e => and_congr_right fun hden => and_congr_right fun hfit => ?_
    rw [read_uint64]
    have hval := unitstoll_iff memUnits_ok hden (fun u hnum => hnum.scanSigned) hlen hfit
    exact hval.trans (by simp [Setter.scanned])
  | num =>
    rw [setsExactly_iff (run_num dup h0 rest offset conf)]
    refine exists₂_congr fun z e => and_congr_right fun hden => and_congr_right fun hfit => ?_
    refine iff_of_true ?_ (Or.inl rfl)
    obtain ⟨rfl, hnumber⟩ := hden
    simp only [mul_one] at hfit ⊢
    exact read_num (hint rfl) hfit hnumber

/-- Options whose bytes are all 0. -/
def zeroOptions : Mem := fun _ => 0

theorem numeric_setters_tick :
    SetsExactly (fun _ => 0) ⟨bytes "tick", .usec, 32, .uint64⟩ (bytes "5ms") [] zeroOptions := by
  refine (numeric_setters_iff (by decide) rfl (by decide) (by decide) _ _ _).mpr ?_
  refine ⟨5, ⟨bytes "ms", 1000, 1000⟩, ⟨by decide, bytes "ms", ?_, by decide⟩, ?_, ?_⟩
  · refine ⟨[], [53], rfl, by decide, fun b hb => ?_, Or.inl ⟨rfl, rfl⟩⟩
    rw [List.mem_singleton.mp hb]
    decide
  · exact ⟨by decide, by decide⟩
  · exact Or.inr (Or.inr ⟨by decide, by decide, Or.inl rfl⟩)

/-- The port `70000` is accepted and becomes 4464, the time `abc` is accepted as 0, and an hour is
accepted as `2 ^ 64 - 694967296` microseconds. -/
theorem port_truncated :
    (confSetNumSlot 1 [bytes "70000"] 8 zeroOptions).map
        (fun r => (SlotType.uint16.read r.1 8, r.2)) = some (4464, configOk) ∧
      (confSetUsecSlot 1 [bytes "abc"] 32 zeroOptions).map
        (fun r => (SlotType.uint64.read r.1 32, r.2)) = some (0, configOk) ∧
      (confSetUsecSlot 1 [bytes "1h"] 32 zeroOptions).map
        (fun r => (SlotType.uint64.read r.1 32, r.2)) = some (2 ^ 64 - 694967296, configOk) ∧
      ¬ SetsExactly (fun _ => 0) ⟨bytes "port", .num, 8, .uint16⟩ (bytes "70000") []
        zeroOptions := by
  refine ⟨by decide, by decide, by decide, ?_⟩
  rw [setsExactly_iff (run_num _ (by decide) _ _ _)]
  rintro ⟨z, e, ⟨rfl, hnum⟩, hfit, hread⟩
  have hz : z = 4464 := by
    have hport : SlotType.uint16.read
        (store zeroOptions 8 4 (toSize (atoi (bytes "70000")))) 8 = 4464 := by decide
    rw [hport] at hread
    simpa using hread.symm
  subst hz
  -- the digits are those of another number
  have := hnum.strtoll
  revert this
  decide

/-! ### The items of the server -/

/-- The setters reject an `argc` of -1, so only an unknown key gets to the clean-up. -/
theorem cleansUpFailed_server {dup : List UInt8 → ℕ} {name : List UInt8} {conf : Mem} :
    CleansUpFailed (serverCmdTable dup) name conf ↔
      ∀ c ∈ commands (serverCmdTable dup), ¬ caseEq name c.name := by
  refine ⟨?_, Or.inl⟩
  rintro (h | ⟨c, conf', hc, hrun⟩)
  · exact h
  · obtain ⟨s, -, rfl⟩ := List.mem_map.mp (findCommand_mem hc)
    obtain ⟨set, hset⟩ := s.setter.run_eq dup
    have herr : (s.command dup).handler (-1) [] s.offset conf = some (conf, configError) := by
      show s.setter.run dup (-1) [] s.offset conf = _
      rw [hset, withArg, if_pos (by decide)]
    have := herr.symm.trans hrun
    simp [configError, configOk] at this

/-- With the commands of the server, `parse_conf` goes wrong exactly on a value that cannot be split
under a key that is not in the table. -/
theorem parse_server_conf (dup : List UInt8 → ℕ) (name line : List UInt8) (conf : Mem) :
    ParsesSafely (serverCmdTable dup) name line conf ↔
      ¬ (SplitFails line ∧ ∀ c ∈ commands (serverCmdTable dup), ¬ caseEq name c.name) := by
  by_cases hfail : SplitFails line
  · rw [parsesSafely_failed_iff _ name conf hfail, cleansUpFailed_server]
    simp [hfail]
  · exact iff_of_true (parsesSafely_of_split _ name conf hfail) fun h => hfail h.1

end Spigeon
