import Mathlib.Algebra.Order.Ring.Nat
import Mathlib.Data.Nat.Basic

/-!
# Bytes in memory

A memory is a function from addresses to bytes. Integers stand in it with their low
byte first.
-/

namespace Memory

abbrev Mem := ℕ → UInt8

/-- The number in the `n` bytes at `a`. -/
def load (m : Mem) (a : ℕ) : ℕ → ℕ
  | 0 => 0
  | n + 1 => (m a).toNat + 256 * load m (a + 1) n

theorem load_lt (m : Mem) (a n : ℕ) : load m a n < 256 ^ n := by
  induction n generalizing a with
  | zero => exact Nat.one_pos
  | succ n ih =>
    have hbyte : (m a).toNat < 256 := (m a).toNat_lt
    have hrest := ih (a + 1)
    rw [load, pow_succ]
    omega

/-- The memory after `x` was written to the `n` bytes at `a`. -/
def store (m : Mem) (a n x : ℕ) : Mem := fun i =>
  if a ≤ i ∧ i < a + n then UInt8.ofNat (x / 256 ^ (i - a)) else m i

/-- Reading `k` of the bytes just written, from the one with number `j` on. -/
theorem load_store_from (m : Mem) (a n x : ℕ) {j k : ℕ} (h : j + k ≤ n) :
    load (store m a n x) (a + j) k = x / 256 ^ j % 256 ^ k := by
  induction k generalizing j with
  | zero => rw [load, pow_zero, Nat.mod_one]
  | succ k ih =>
    have hbyte : (store m a n x (a + j)).toNat = x / 256 ^ j % 256 := by
      rw [store, if_pos (by omega), Nat.add_sub_cancel_left]
      rfl
    rw [load, hbyte, Nat.add_assoc, ih (by omega), pow_succ 256 j, ← Nat.div_div_eq_div_mul,
      pow_succ', Nat.mod_mul]

/-- A shorter number is read as the low bytes of the one written. -/
theorem load_store (m : Mem) (a x : ℕ) {k n : ℕ} (h : k ≤ n) :
    load (store m a n x) a k = x % 256 ^ k := by
  have := load_store_from m a n x (j := 0) (k := k) (by omega)
  rwa [Nat.add_zero, pow_zero, Nat.div_one] at this

/-- What is written elsewhere is not read. -/
theorem load_store_of_disjoint (m : Mem) {a n x b k : ℕ} (h : a + n ≤ b ∨ b + k ≤ a) :
    load (store m a n x) b k = load m b k := by
  induction k generalizing b with
  | zero => rfl
  | succ k ih =>
    have hbyte : store m a n x b = m b := by
      rw [store, if_neg (by omega)]
    rw [load, load, hbyte, ih (by omega)]

end Memory
