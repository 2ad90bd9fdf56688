import Spigeon.Lib.CStr
import Spigeon.Lib.Printf

/-!
# Decimal numerals

Every number has one numeral (`Printf.numeral .decimal`), which `CStr.digitsVal` reads back. The numerals are the
non-empty texts of digits without a leading zero, but for the text `0` itself (`IsNumeral`).
-/

namespace Decimal

open CStr Printf

/-- The byte of a digit. -/
def digit (d : ℕ) : UInt8 := Radix.decimal.digit d

/-- The value of a byte as a digit. -/
def value (b : UInt8) : ℕ := b.toNat - 48

theorem value_digit {d : ℕ} (h : d < 10) : value (digit d) = d := by
  interval_cases d <;> rfl

theorem isDigit_digit {d : ℕ} (h : d < 10) : isDigit (digit d) = true := by
  interval_cases d <;> rfl

theorem isDigit_iff {b : UInt8} : isDigit b = true ↔ 48 ≤ b.toNat ∧ b.toNat ≤ 57 := by
  unfold isDigit
  rw [Bool.and_eq_true, decide_eq_true_iff, decide_eq_true_iff, UInt8.le_iff_toNat_le, UInt8.le_iff_toNat_le]
  rfl

theorem value_lt {b : UInt8} (h : isDigit b = true) : value b < 10 := by
  have := isDigit_iff.1 h
  unfold value
  omega

theorem digit_value {b : UInt8} (h : isDigit b = true) : digit (value b) = b := by
  have hb := isDigit_iff.1 h
  have hlt := value_lt h
  unfold digit Radix.digit
  simp only
  rw [if_pos hlt]
  unfold value
  rw [show 48 + (b.toNat - 48) = b.toNat by omega]
  exact UInt8.ofNat_toNat

theorem digitsVal_snoc (ds : List UInt8) (b : UInt8) : digitsVal (ds ++ [b]) = 10 * digitsVal ds + value b := by
  unfold digitsVal
  rw [List.foldl_append]
  rfl

/-- The numeral of a number of more than one digit ends with the last of them. -/
theorem numeral_snoc {n : ℕ} (h : 10 ≤ n) :
    numeral .decimal n = numeral .decimal (n / 10) ++ [digit (n % 10)] :=
  numeral_of_base_le .decimal h

theorem numeral_single {n : ℕ} (h : n < 10) : numeral .decimal n = [digit n] := numeral_of_lt_base .decimal h

/-- Induction over the digits of a number, the last one first. -/
theorem digits_induction {P : ℕ → Prop} (hlt : ∀ n < 10, P n) (hstep : ∀ n, 10 ≤ n → P (n / 10) → P n) (n : ℕ) :
    P n := by
  induction n using Nat.strongRecOn with
  | ind n ih =>
    by_cases h : n < 10
    · exact hlt n h
    · exact hstep n (by omega) (ih (n / 10) (by omega))

/-- **A numeral has the value of its number.** -/
theorem digitsVal_numeral (n : ℕ) : digitsVal (numeral .decimal n) = n := by
  induction n using digits_induction with
  | hlt n h =>
    rw [numeral_single h]
    exact (digitsVal_snoc [] _).trans (by rw [value_digit h]; exact Nat.zero_add n)
  | hstep n h ih =>
    rw [numeral_snoc h, digitsVal_snoc, ih, value_digit (by omega)]
    omega

theorem isDigit_of_mem_numeral {n : ℕ} {b : UInt8} (h : b ∈ numeral .decimal n) : isDigit b = true := by
  induction n using digits_induction with
  | hlt n hn =>
    rw [numeral_single hn, List.mem_singleton] at h
    rw [h]
    exact isDigit_digit hn
  | hstep n hn ih =>
    rw [numeral_snoc hn, List.mem_append, List.mem_singleton] at h
    rcases h with h | rfl
    · exact ih h
    · exact isDigit_digit (by omega)

theorem numeral_ne_nil (n : ℕ) : numeral .decimal n ≠ [] := by
  by_cases h : n < 10
  · rw [numeral_single h]; exact List.cons_ne_nil _ _
  · rw [numeral_snoc (by omega)]; simp

theorem length_numeral_le {n k : ℕ} (hk : 0 < k) (h : n < 10 ^ k) : (numeral .decimal n).length ≤ k := by
  induction n using digits_induction generalizing k with
  | hlt n hn =>
    rw [numeral_single hn, List.length_singleton]
    exact hk
  | hstep n hn ih =>
    obtain ⟨k, rfl⟩ : ∃ m, k = m + 1 := ⟨k - 1, by omega⟩
    have hk : 0 < k := by
      rcases Nat.eq_zero_or_pos k with rfl | hpos
      · omega
      · exact hpos
    rw [numeral_snoc hn, List.length_append, List.length_singleton]
    rw [Nat.pow_succ] at h
    exact Nat.succ_le_succ (ih hk (by omega))

/-- The texts that are numerals. -/
structure IsNumeral (ds : List UInt8) : Prop where
  digits : ∀ b ∈ ds, isDigit b = true
  ne_nil : ds ≠ []
  lead : ds.head? = some 48 → ds = [48]

theorem isNumeral_numeral (n : ℕ) : IsNumeral (numeral .decimal n) := by
  refine ⟨fun b hb => isDigit_of_mem_numeral hb, numeral_ne_nil n, ?_⟩
  induction n using digits_induction with
  | hlt n h =>
    rw [numeral_single h]
    intro hhead
    rw [List.head?_cons, Option.some.injEq] at hhead
    rw [hhead]
  | hstep n h ih =>
    intro hhead
    rw [numeral_snoc h, List.head?_append_of_ne_nil _ (numeral_ne_nil _)] at hhead
    -- a numeral that begins with zero is that of zero
    have hzero := ih hhead
    have hval := digitsVal_numeral (n / 10)
    rw [hzero] at hval
    have : digitsVal [48] = 0 := rfl
    omega

theorem IsNumeral.init {ds : List UInt8} {b : UInt8} (h : IsNumeral (ds ++ [b])) (hne : ds ≠ []) :
    IsNumeral ds := by
  refine ⟨fun c hc => h.digits c (List.mem_append_left _ hc), hne, fun hhead => ?_⟩
  have hlead := h.lead (by rw [List.head?_append_of_ne_nil _ hne]; exact hhead)
  -- a text of more than one digit does not begin with zero
  have hlen := congrArg List.length hlead
  rw [List.length_append] at hlen
  have := List.length_pos_iff.2 hne
  simp only [List.length_cons, List.length_nil] at hlen
  omega

/-- The value of a numeral that does not begin with zero is not zero. -/
theorem IsNumeral.value_pos {ds : List UInt8} (h : IsNumeral ds) (hne : ds ≠ [48]) : 0 < digitsVal ds := by
  induction ds using List.reverseRecOn with
  | nil => exact absurd rfl h.ne_nil
  | append_singleton ds b ih =>
    rw [digitsVal_snoc]
    by_cases hds : ds = []
    · subst hds
      have hb := h.digits b (by simp)
      have hd := isDigit_iff.1 hb
      have hb0 : b ≠ 48 := fun h0 => hne (by rw [h0]; rfl)
      have hb0' : b.toNat ≠ 48 := fun h0 => hb0 (UInt8.toNat_inj.1 h0)
      unfold value
      omega
    · have hinit := h.init hds
      have : ds ≠ [48] := by
        rintro rfl
        have := h.lead rfl
        simp at this
      have := ih hinit this
      omega

/-- **A numeral is that of its value.** -/
theorem numeral_digitsVal {ds : List UInt8} (h : IsNumeral ds) : numeral .decimal (digitsVal ds) = ds := by
  induction ds using List.reverseRecOn with
  | nil => exact absurd rfl h.ne_nil
  | append_singleton ds b ih =>
    have hb := h.digits b (by simp)
    have hlt := value_lt hb
    rw [digitsVal_snoc]
    by_cases hds : ds = []
    · subst hds
      have h0 : 10 * digitsVal [] + value b = value b := by
        have : digitsVal [] = 0 := rfl
        omega
      rw [h0, numeral_single hlt, digit_value hb]
      rfl
    · have hinit := h.init hds
      have hpos : 0 < digitsVal ds := by
        apply hinit.value_pos
        rintro rfl
        have := h.lead rfl
        simp at this
      rw [numeral_snoc (by omega), show (10 * digitsVal ds + value b) / 10 = digitsVal ds by omega,
        show (10 * digitsVal ds + value b) % 10 = value b by omega, ih hinit, digit_value hb]

end Decimal
