import Mathlib.Data.List.Basic
import Spigeon.Lib.CInt

/-!
# Simple dynamic strings

`util/sds.h`, `util/sds.cpp`. An `Sds` is the header with its two `int` fields and
the bytes of the block behind it, the terminator included, so a block allocated
for `n` characters has `n + 1` bytes in `buf`. Writes outside the block and failed
assertions are `none`.
-/

namespace Spigeon

open CInt

/-- `struct sdshdr`. -/
structure Sds where
  len : ℤ
  free : ℤ
  buf : List UInt8
deriving DecidableEq, Repr

/-- `SDS_MAX_PREALLOC`. -/
def sdsMaxPrealloc : ℕ := 1024 * 1024

/-- `sizeof(struct sdshdr)`. -/
def sdshdrSize : ℕ := 8

def sdsempty : Sds := ⟨0, 0, [0]⟩

def sdslen (s : Sds) : ℕ := toSize s.len

def sdsavail (s : Sds) : ℕ := toSize s.free

/-- The characters of the string. -/
def Sds.content (s : Sds) : List UInt8 := s.buf.take (sdslen s)

/-- A write of `xs` at offset `i` of a block, `none` when it leaves the block. -/
def poke (b : List UInt8) (i : ℕ) : List UInt8 → Option (List UInt8)
  | [] => some b
  | x :: xs =>
    if i + (x :: xs).length ≤ b.length then
      some (b.take i ++ (x :: xs) ++ b.drop (i + (x :: xs).length))
    else none

/-- `zrealloc` of the bytes behind the header to `n` bytes. What the fresh part
holds is indeterminate: `fill` says what it happens to be. -/
def zrealloc (fill : ℕ → UInt8) (b : List UInt8) (n : ℕ) : List UInt8 :=
  b.take n ++ (List.range' b.length (n - b.length)).map fill

/-- The growth rule of `sdsMakeRoomFor`: double below `sdsMaxPrealloc`, else add it. -/
def sdsNewlen (len addlen : ℕ) : ℕ :=
  let newlen := (len + addlen) % 2 ^ 64
  if newlen < sdsMaxPrealloc then newlen * 2 else (newlen + sdsMaxPrealloc) % 2 ^ 64

def sdsMakeRoomFor (fill : ℕ → UInt8) (s : Sds) (addlen : ℕ) : Sds :=
  if addlen ≤ sdsavail s then s
  else
    let len := sdslen s
    let newlen := sdsNewlen len addlen
    -- the request is for header and block together, in `size_t`
    let block := (sdshdrSize + newlen + 1) % 2 ^ 64 - sdshdrSize
    { s with buf := zrealloc fill s.buf block, free := toInt ((newlen : ℤ) - len) }

/-- `sdsIncrLen`; `none` when one of its two assertions fails, or when the terminator is stored before the block:
a `len` that gets too large is negative. -/
def sdsIncrLen (s : Sds) (incr : ℤ) : Option Sds :=
  if s.free < incr then none
  else
    let len := toInt (s.len + incr)
    let free := toInt (s.free - incr)
    if free < 0 ∨ len < 0 then none
    else (poke s.buf len.toNat [0]).map fun b => ⟨len, free, b⟩

/-- An index argument of `sdsrange`: negative ones count from the end. -/
def rangeIndex (len : ℕ) (i : ℤ) : ℤ :=
  if i < 0 then (if toInt (len + i) < 0 then 0 else toInt (len + i)) else i

/-- The part of the string `sdsrange` keeps, as its first index and its length: an empty
selection moves nothing, and one past the end selects nothing. -/
def rangeWindow (len : ℕ) (start stop : ℤ) : ℤ × ℕ :=
  let start := rangeIndex len start
  let stop := rangeIndex len stop
  let newlen : ℕ := if start > stop then 0 else toSize (stop - start + 1)
  if newlen ≠ 0 then
    if start ≥ toInt len then (start, 0)
    else if stop ≥ toInt len then
      let stop := toInt ((len : ℤ) - 1)
      (start, if start > stop then 0 else toSize (stop - start + 1))
    else (start, newlen)
  else (0, newlen)

def sdsrange (s : Sds) (start stop : ℤ) : Sds :=
  if sdslen s = 0 then s
  else
    let w := rangeWindow (sdslen s) start stop
    let moved := (s.buf.drop w.1.toNat).take w.2 ++ s.buf.drop w.2
    { len := toInt w.2, free := toInt (s.free + (s.len - w.2)), buf := moved.set w.2 0 }

end Spigeon
