import Mathlib.Tactic.Ring
import Mathlib.Data.Int.Basic

/-!
# C integer conversions on LP64

`int` values are kept as integers and `size_t` values as naturals; the implicit
conversions of C between them are the functions below. `toInt` is the reduction
to a signed 32-bit value, `toInt64` the one to a signed 64-bit value, `toSize` the
reduction to an unsigned 64-bit value.
-/

namespace CInt

/-- Conversion to `int` (32 bits, two's complement). -/
def toInt (z : ℤ) : ℤ :=
  -- compared as a natural, so that the kernel does not count down from `2 ^ 31`
  let r : ℕ := (z % 2 ^ 32).toNat
  if r < 2 ^ 31 then r else r - 2 ^ 32

/-- Reduction to `int64_t` (64 bits, two's complement). -/
def toInt64 (z : ℤ) : ℤ :=
  let r : ℕ := (z % 2 ^ 64).toNat
  if r < 2 ^ 63 then r else r - 2 ^ 64

/-- Conversion to `size_t` (64 bits). -/
def toSize (z : ℤ) : ℕ := (z % 2 ^ 64).toNat

theorem toInt_of_range {z : ℤ} (h1 : -2 ^ 31 ≤ z) (h2 : z < 2 ^ 31) : toInt z = z := by
  unfold toInt; dsimp only; split <;> omega

theorem toInt_nat {n : ℕ} (h : n < 2 ^ 31) : toInt n = n := toInt_of_range (by omega) (by omega)

/-- A conversion to `int` yields 0 exactly on the multiples of `2 ^ 32`. -/
theorem toInt_eq_zero {n : ℕ} : toInt n = 0 ↔ n % 2 ^ 32 = 0 := by
  unfold toInt; dsimp only; split <;> omega

theorem toInt_range (z : ℤ) : -2 ^ 31 ≤ toInt z ∧ toInt z < 2 ^ 31 := by
  unfold toInt; dsimp only; split <;> omega

theorem toInt_le (n : ℕ) : toInt n ≤ n := by
  unfold toInt; dsimp only; split <;> omega

theorem toInt64_of_range {z : ℤ} (h1 : -2 ^ 63 ≤ z) (h2 : z < 2 ^ 63) : toInt64 z = z := by
  unfold toInt64; dsimp only; split <;> omega

theorem toInt64_emod (z : ℤ) : toInt64 z % 2 ^ 64 = z % 2 ^ 64 := by
  unfold toInt64; dsimp only; split <;> omega

theorem toInt64_congr {a b : ℤ} (h : a % 2 ^ 64 = b % 2 ^ 64) : toInt64 a = toInt64 b := by
  unfold toInt64; rw [h]

/-- A sum may be reduced at any point. -/
theorem toInt64_add_left (a b : ℤ) : toInt64 (toInt64 a + b) = toInt64 (a + b) := by
  apply toInt64_congr
  have ha := toInt64_emod a
  omega

theorem toSize_of_range {z : ℤ} (h1 : 0 ≤ z) (h2 : z < 2 ^ 64) : toSize z = z.toNat := by
  unfold toSize; rw [Int.emod_eq_of_lt h1 h2]

theorem toSize_nat {n : ℕ} (h : n < 2 ^ 64) : toSize n = n := by
  rw [toSize_of_range (by omega) (by omega), Int.toNat_natCast]

theorem toSize_sub {a b : ℕ} (hb : b ≤ a) (ha : a < 2 ^ 64) : toSize ((a : ℤ) - b) = a - b := by
  rw [toSize_of_range (by omega) (by omega)]; omega

theorem toSize_eq_zero {z : ℤ} (h1 : -2 ^ 31 ≤ z) (h2 : z < 2 ^ 31) : toSize z = 0 ↔ z = 0 := by
  unfold toSize; omega

end CInt
