import Spigeon.Spec.SdsOps

/-!
# Numbers as texts

`ll2string` and `string2ll` of `util/utils.cpp`, and `sdsfromlonglong` of `util/sds.cpp`. A `long long` is an
integer; a write outside of an array and the overflow in `-value` are `none`.
-/

namespace Spigeon

open CInt

/-- `do { *p-- = '0'+(v%10); v /= 10; } while(v);` with `room` bytes before `p`. -/
def putDigits : ℕ → ℕ → List UInt8 → Option (List UInt8)
  | 0, _, _ => none
  | room + 1, v, text =>
    let text := UInt8.ofNat (48 + v % 10) :: text
    if v / 10 = 0 then some text else putDigits room (v / 10) text

/-- The text at the end of `buf`, of 32 bytes. -/
def llText (value : ℤ) : Option (List UInt8) :=
  if value = -2 ^ 63 then none
  else
    (putDigits 32 value.natAbs []).bind fun text =>
      if value < 0 then if text.length < 32 then some (45 :: text) else none else some text

def sdsfromlonglong (value : ℤ) : Option Sds := (llText value).bind fun text => sdsnewlen (some text) text.length

/-- `ll2string` for an array `s`: what it holds afterwards, and the result. -/
def ll2string (s : List UInt8) (len : ℕ) (value : ℤ) : Option (List UInt8 × ℕ) :=
  if len = 0 then some (s, 0)
  else do
    let text ← llText value
    -- it fits, including the nul term
    let l := if text.length + 1 > len then len - 1 else text.length
    let s ← poke s 0 (text.take l)
    let s ← poke s l [0]
    some (s, l)

/-- `ULLONG_MAX`. -/
def ullongMax : ℕ := 2 ^ 64 - 1

/-- The loop of `string2ll`: the value, and what is left of the string. An overflow is `none`. -/
def takeDigits (v : ℕ) : List UInt8 → Option (ℕ × List UInt8)
  | [] => some (v, [])
  | b :: p =>
    if 48 ≤ b ∧ b ≤ 57 then
      if v > ullongMax / 10 then none
      else if v * 10 > ullongMax - (b.toNat - 48) then none
      else takeDigits (v * 10 + (b.toNat - 48)) p
    else some (v, b :: p)

/-- A number without a sign. Its first digit is not zero. -/
def takeNumber : List UInt8 → Option ℕ
  | [] => none
  | b :: p =>
    if 49 ≤ b ∧ b ≤ 57 then
      (takeDigits (b.toNat - 48) p).bind fun r => if r.2 = [] then some r.1 else none
    else none

/-- `string2ll`: `none` for the result 0. The test for a single `0` behind the sign is never true. -/
def string2ll (s : List UInt8) : Option ℤ :=
  if s = [48] then some 0
  else if s.head? = some 45 then
    (takeNumber s.tail).bind fun v => if v > 2 ^ 63 then none else some (toInt64 (-v))
  else (takeNumber s).bind fun v => if v > 2 ^ 63 - 1 then none else some v

end Spigeon
