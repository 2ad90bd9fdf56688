import Mathlib.Algebra.Ring.Int.Defs
import Mathlib.Data.List.TakeWhile

/-!
# C strings

A string of C++ is a list of bytes, of which any may be zero. The string that C reads
at its address ends before the first zero. The functions below are those of `ctype.h`,
`strings.h` and `stdlib.h`, in the C locale.
-/

namespace CStr

/-- The bytes of a literal. -/
def bytes (s : String) : List UInt8 := s.toList.map fun c => c.toNat.toUInt8

/-- The C string at the start of a block of bytes. -/
def cStr (s : List UInt8) : List UInt8 := s.takeWhile (· ≠ 0)

theorem cStr_append_nul {a : List UInt8} (b : List UInt8) (ha : 0 ∉ a) :
    cStr (a ++ 0 :: b) = a := by
  have hall : ∀ x ∈ a, decide (x ≠ 0) = true := by
    intro x hx
    exact decide_eq_true fun h0 => ha (h0 ▸ hx)
  rw [cStr, List.takeWhile_append_of_pos hall, List.takeWhile_cons_of_neg (by simp),
    List.append_nil]

theorem cStr_eq_self {a : List UInt8} (ha : 0 ∉ a) : cStr a = a := by
  rw [cStr, List.takeWhile_eq_self_iff]
  intro x hx
  exact decide_eq_true fun h0 => ha (h0 ▸ hx)

/-! ### Letters -/

/-- `isspace`: the blank, and `\t`, `\n`, `\v`, `\f`, `\r`. -/
def isSpace (b : UInt8) : Bool := b = 32 || (9 ≤ b && b ≤ 13)

def isDigit (b : UInt8) : Bool := 48 ≤ b && b ≤ 57

def toLower (b : UInt8) : UInt8 := if 65 ≤ b ∧ b ≤ 90 then b + 32 else b

/-- `strcasecmp(a, b) == 0`. -/
def caseEq (a b : List UInt8) : Bool := a.map toLower = b.map toLower

/-! ### Numbers -/

/-- The value of a string of decimal digits. -/
def digitsVal (ds : List UInt8) : ℕ := ds.foldl (fun n b => 10 * n + (b.toNat - 48)) 0

/-- What `strtoll` does with a value outside its range. -/
def clamp64 (z : ℤ) : ℤ := max (-2 ^ 63) (min z (2 ^ 63 - 1))

/-- `strtoll(s, NULL, 10)`, and `strtol` where `long` has 64 bits. -/
def strtoll (s : List UInt8) : ℤ :=
  match s.dropWhile isSpace with
  | [] => 0
  | b :: t =>
    if b = 45 then clamp64 (-digitsVal (t.takeWhile isDigit))
    else if b = 43 then clamp64 (digitsVal (t.takeWhile isDigit))
    else clamp64 (digitsVal ((b :: t).takeWhile isDigit))

end CStr
