import Spigeon.Lib.Quoted

/-!
# Quoted values

`parse_quote` of `new-config/lexer.l`, and the pattern `quoted_value` of the strings it is called
with. It decodes in place: a value is read at `i` and written at `cur` in one buffer. An access outside
of the buffer is `none`. Positions are naturals, since `yyleng` is an `int`.
-/

namespace Spigeon

open Quoted

/-- The pattern `quoted_value`. -/
inductive QuotedValue : List UInt8 → Prop
  | nil : QuotedValue []
  | plain {c : UInt8} {v : List UInt8} :
    c ≠ 34 → c ≠ 92 → c ≠ 10 → QuotedValue v → QuotedValue (c :: v)
  | escape {e : UInt8} {v : List UInt8} : QuotedValue v → QuotedValue (92 :: e :: v)
  | hex {h l : UInt8} {v : List UInt8} :
    isHex h = true → isHex l = true → QuotedValue v → QuotedValue (92 :: 120 :: h :: l :: v)
  | octal {a b c : UInt8} {v : List UInt8} :
    48 ≤ a → a ≤ 51 → isOctal b = true → isOctal c = true → QuotedValue v →
      QuotedValue (92 :: a :: b :: c :: v)

/-- `___hval`. -/
def hval (x : UInt8) : UInt8 :=
  if x ≤ 57 then x - 48 else if 97 ≤ x then x - 97 + 10 else x - 65 + 10

/-- `___oval`. -/
def oval (x : UInt8) : UInt8 := x - 48

/-- The cases of one character, and `default`. -/
def quoteChar (c : UInt8) : UInt8 :=
  match Char.ofNat c.toNat with
  | 'n' => 10
  | 'r' => 13
  | 't' => 9
  | 'v' => 11
  | 'a' => 7
  | 'b' => 8
  | 'f' => 12
  | '\'' => 39
  | '"' => 34
  | '\\' => 92
  | _ => c

/-- `switch(buf[i])`: the byte for `buf[cur]`, and how far `i` is moved. -/
def quoteSwitch (buf : List UInt8) (len i : ℕ) : Option (UInt8 × ℕ) :=
  buf[i]?.bind fun c =>
    if c = 120 then
      if i + 2 < len then
        buf[i + 1]?.bind fun h => buf[i + 2]?.bind fun l =>
          if isHex h ∧ isHex l then some ((hval h <<< 4) ||| hval l, 2) else some (c, 0)
      else some (c, 0)
    else if c = 48 ∨ c = 49 ∨ c = 50 then
      let short : UInt8 := if c = 48 then 0 else c
      if i + 2 < len then
        buf[i + 1]?.bind fun d => buf[i + 2]?.bind fun d' =>
          -- the last digit is the first once more
          if isOctal d ∧ isOctal d' then some ((oval c <<< 6) ||| (oval d <<< 3) ||| oval c, 2)
          else some (short, 0)
      else some (short, 0)
    else some (quoteChar c, 0)

/-- The body of the loop: what is written, and how far `i` is moved. A backslash at the end writes
nothing. -/
def quoteBody (buf : List UInt8) (len i : ℕ) : Option (Option UInt8 × ℕ) :=
  buf[i]?.bind fun c =>
    if c = 92 then
      if i + 1 < len then (quoteSwitch buf len (i + 1)).map fun p => (some p.1, p.2 + 1)
      else some (none, 0)
    else some (some c, 0)

/-- The buffer and the positions, and for each write where it went and where was read last; the latter
only serve the statements. -/
structure QuoteState where
  buf : List UInt8
  i : ℕ := 0
  cur : ℕ := 0
  writes : List (ℕ × ℕ) := []

/-- `buf[cur] = b`. -/
def QuoteState.write (s : QuoteState) (b : UInt8) : Option QuoteState :=
  if s.cur < s.buf.length then
    some { s with buf := s.buf.set s.cur b, writes := s.writes ++ [(s.cur, s.i)] }
  else none

/-- `for (i = 0; i < len; cur++, i++)`. -/
def quoteLoop (len : ℕ) (s : QuoteState) : Option QuoteState :=
  if s.i < len then
    match quoteBody s.buf len s.i with
    | none => none
    | some (b, n) =>
      match b.elim (some s) s.write with
      | none => none
      | some s' => quoteLoop len { s' with i := s.i + n + 1, cur := s.cur + 1 }
  else some s
termination_by len - s.i

/-- `parse_quote`, which returns the last `cur`. -/
def parseQuote (buf : List UInt8) (len : ℕ) : Option QuoteState :=
  (quoteLoop len { buf := buf }).bind fun s => s.write 0

end Spigeon
