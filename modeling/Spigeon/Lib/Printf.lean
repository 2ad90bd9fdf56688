import Mathlib.Data.Nat.Digits.Lemmas

/-!
# Conversions of `printf`

The text that the C standard gives for a conversion `%[flags][width][length]specifier` of an
integer, without a precision. The text is put together from the sign, the prefix of the alternate
form and the numeral (`lead`, `numeral`), and is then justified to the width (`justify`).

A format of text is a list of pieces (`TextPiece`): characters, `%%`, `%c` and `%s`.
-/

namespace Printf

/-- The radix of a conversion, with the case of the letters. -/
inductive Radix
  | octal
  | decimal
  | hex (upper : Bool)
  deriving DecidableEq

def Radix.base : Radix → ℕ
  | .octal => 8
  | .decimal => 10
  | .hex _ => 16

/-- The character of a digit. -/
def Radix.digit : Radix → ℕ → UInt8
  | .hex true, d => if d < 10 then UInt8.ofNat (48 + d) else UInt8.ofNat (55 + d)
  | _, d => if d < 10 then UInt8.ofNat (48 + d) else UInt8.ofNat (87 + d)

inductive Flag
  | minus
  | plus
  | space
  | zero
  | alternate
  deriving DecidableEq

def Flag.char : Flag → UInt8
  | .minus => 45
  | .plus => 43
  | .space => 32
  | .zero => 48
  | .alternate => 35

inductive Length
  | none
  | h
  | l
  | ll
  | z
  deriving DecidableEq

def Length.chars : Length → List UInt8
  | .none => []
  | .h => [104]
  | .l => [108]
  | .ll => [108, 108]
  | .z => [122]

/-- The bits of the type of the argument, on LP64. -/
def Length.bits : Length → ℕ
  | .none => 32
  | .h => 16
  | .l | .ll | .z => 64

inductive Specifier
  | d
  | i
  | u
  | o
  | x
  | X
  deriving DecidableEq

namespace Specifier

def char : Specifier → UInt8
  | .d => 100
  | .i => 105
  | .u => 117
  | .o => 111
  | .x => 120
  | .X => 88

def signed : Specifier → Bool
  | .d | .i => true
  | _ => false

def radix : Specifier → Radix
  | .d | .i | .u => .decimal
  | .o => .octal
  | .x => .hex false
  | .X => .hex true

theorem radix_of_signed {s : Specifier} (h : s.signed = true) : s.radix = .decimal := by
  cases s with
  | d | i => rfl
  | _ => exact absurd h (by decide)

end Specifier

/-! ### Texts -/

/-- The numeral of a number, `0` for zero. -/
def numeral (r : Radix) (n : ℕ) : List UInt8 :=
  if n = 0 then [48] else ((Nat.digits r.base n).map r.digit).reverse

/-- The prefix of the alternate form: `0`, and `0x` or `0X`, of a number that is not zero. -/
def altForm : Radix → ℕ → List UInt8
  | _, 0 => []
  | .octal, _ => [48]
  | .decimal, _ => []
  | .hex false, _ => [48, 120]
  | .hex true, _ => [48, 88]

/-- `lead` and `digits` in a field of the given width. -/
def justify (minus zero : Bool) (width : ℕ) (lead digits : List UInt8) : List UInt8 :=
  let gap := width - (lead ++ digits).length
  if minus then lead ++ digits ++ List.replicate gap 32
  else if zero then lead ++ List.replicate gap 48 ++ digits
  else List.replicate gap 32 ++ lead ++ digits

/-- A conversion. Its width is an `int`. -/
structure Conversion where
  flags : List Flag
  width : ℕ
  length : Length
  spec : Specifier
  width_lt : width < 2 ^ 31

namespace Conversion

def has (c : Conversion) (f : Flag) : Bool := decide (f ∈ c.flags)

/-- The conversion as it stands in a format. A width of zero is not written. -/
def format (c : Conversion) : List UInt8 :=
  37 :: (c.flags.map Flag.char ++ ((if c.width = 0 then [] else numeral .decimal c.width) ++
    (c.length.chars ++ [c.spec.char])))

/-- The values of the type of the argument. -/
def InRange (c : Conversion) (v : ℤ) : Prop :=
  if c.spec.signed then -2 ^ (c.length.bits - 1) ≤ v ∧ v < 2 ^ (c.length.bits - 1)
  else 0 ≤ v ∧ v < 2 ^ c.length.bits

instance (c : Conversion) (v : ℤ) : Decidable (c.InRange v) :=
  inferInstanceAs (Decidable (if c.spec.signed then _ else _))

/-- The sign, and the prefix of the alternate form. -/
def lead (c : Conversion) (v : ℤ) : List UInt8 :=
  (if c.spec.signed then
    if v < 0 then [45] else if c.has .plus then [43] else if c.has .space then [32] else []
  else []) ++ if c.has .alternate then altForm c.spec.radix v.natAbs else []

/-- The text before it is justified. -/
def unpadded (c : Conversion) (v : ℤ) : List UInt8 := c.lead v ++ numeral c.spec.radix v.natAbs

/-- **What `printf` prints for the conversion and the argument.** -/
def text (c : Conversion) (v : ℤ) : List UInt8 :=
  justify (c.has .minus) (c.has .zero) c.width (c.lead v) (numeral c.spec.radix v.natAbs)

end Conversion

/-! ### Formats of text -/

/-- A piece of a format of text, with its argument. -/
inductive TextPiece
  | literal (c : UInt8) (hc : c ≠ 0 ∧ c ≠ 37)
  | percent
  | char (v : ℤ)
  | string (minus : Bool) (width : ℕ) (val : List UInt8) (hwidth : width < 2 ^ 31) (hval : 0 ∉ val)

namespace TextPiece

/-- The piece as it stands in a format. A width of zero is not written. -/
def format : TextPiece → List UInt8
  | .literal c _ => [c]
  | .percent => [37, 37]
  | .char _ => [37, 99]
  | .string minus width _ _ _ =>
    37 :: ((if minus then [Flag.minus] else []).map Flag.char ++
      ((if width = 0 then [] else numeral .decimal width) ++ [115]))

/-- What `printf` prints for the piece. -/
def text : TextPiece → List UInt8
  | .literal c _ => [c]
  | .percent => [37]
  | .char v => [UInt8.ofNat (v % 2 ^ 8).toNat]
  | .string minus width val _ _ => justify minus false width [] val

end TextPiece

/-- **The text of a format.** The number of its characters is returned as an `int`, and there is none of a
text that is too long for that. -/
def printf (ps : List TextPiece) : Option (List UInt8) :=
  let t := ps.flatMap TextPiece.text
  if t.length < 2 ^ 31 then some t else none

/-! ### Numerals -/

theorem Radix.two_le_base (r : Radix) : 2 ≤ r.base := by
  cases r <;> simp [Radix.base]

/-- The last digit of a numeral of more than one digit. -/
theorem numeral_of_base_le (r : Radix) {n : ℕ} (h : r.base ≤ n) :
    numeral r n = numeral r (n / r.base) ++ [r.digit (n % r.base)] := by
  have hb := r.two_le_base
  have hn : n ≠ 0 := by omega
  have hdiv : n / r.base ≠ 0 := (Nat.div_pos h (by omega)).ne'
  unfold numeral
  rw [if_neg hn, if_neg hdiv, Nat.digits_def' hb (by omega), List.map_cons, List.reverse_cons]

theorem numeral_of_lt_base (r : Radix) {n : ℕ} (h : n < r.base) : numeral r n = [r.digit n] := by
  have hb := r.two_le_base
  unfold numeral
  split
  next h0 => subst h0; cases r with
    | hex u => cases u <;> rfl
    | _ => rfl
  next h0 => rw [Nat.digits_of_lt _ _ h0 h]; rfl

theorem numeral_length_le (r : Radix) {n k : ℕ} (hk : 0 < k) (h : n < 2 ^ k) :
    (numeral r n).length ≤ k := by
  unfold numeral
  split
  next => exact hk
  next h0 =>
    rw [List.length_reverse, List.length_map]
    have hpow : 2 ^ k ≤ r.base ^ k := Nat.pow_le_pow_left r.two_le_base k
    exact (Nat.digits_length_le_iff r.two_le_base n).2 (by omega)

theorem Radix.digit_ne_minus {d : ℕ} (h : d < 10) : Radix.decimal.digit d ≠ 45 := by
  interval_cases d <;> decide

theorem minus_not_mem_numeral (n : ℕ) : 45 ∉ numeral .decimal n := by
  induction n using Nat.strong_induction_on with
  | _ n ih =>
    rcases lt_or_ge n 10 with h10 | h10
    · rw [numeral_of_lt_base .decimal h10, List.mem_singleton]
      exact (Radix.digit_ne_minus h10).symm
    · rw [numeral_of_base_le .decimal h10, List.mem_append, List.mem_singleton]
      rintro (h | h)
      · exact ih (n / 10) (by omega) h
      · exact Radix.digit_ne_minus (Nat.mod_lt n (by decide)) h.symm

/-- The prefix does not depend on the number, if that is not zero. -/
theorem altForm_eq {r : Radix} {n : ℕ} (h : n = 0 → r = .decimal) : altForm r n = altForm r 1 := by
  cases n with
  | zero => rw [h rfl]; rfl
  | succ n => rcases r with _ | _ | (_ | _) <;> rfl

/-! ### Fields -/

section Fields

variable {m z : Bool} {w : ℕ} {lead digits : List UInt8}

theorem mem_justify_of_mem {x : UInt8} (h : x ∈ lead ++ digits) :
    x ∈ justify m z w lead digits := by
  rw [List.mem_append] at h
  unfold justify
  split
  next => simp only [List.mem_append]; tauto
  next => split <;> simp only [List.mem_append] <;> tauto

theorem mem_justify {x : UInt8} (h : x ∈ justify m z w lead digits) :
    x ∈ lead ++ digits ∨ x = 32 ∨ x = 48 := by
  unfold justify at h
  rw [List.mem_append]
  split at h
  next => simp only [List.mem_append, List.mem_replicate] at h; tauto
  next => split at h <;> simp only [List.mem_append, List.mem_replicate] at h <;> tauto

theorem length_le_justify : (lead ++ digits).length ≤ (justify m z w lead digits).length := by
  unfold justify
  cases m <;> cases z <;> simp

/-- The padding is all of one character. -/
theorem count_justify (x : UInt8) :
    (justify m z w lead digits).count x = (lead ++ digits).count x +
      if (if !m && z then 48 else 32) = x then w - (lead ++ digits).length else 0 := by
  unfold justify
  cases m <;> cases z <;> simp [List.count_replicate] <;> omega

end Fields

end Printf
