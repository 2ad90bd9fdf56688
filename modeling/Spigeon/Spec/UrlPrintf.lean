import Spigeon.Lib.CInt
import Spigeon.Lib.CStr
import Spigeon.Lib.Percent
import Spigeon.Lib.Printf

/-!
# The formatter of encoded text

`url_vsnprintf` of `util/url_snprintf.cpp`. It walks the format twice at once: an outer loop copies
text, an inner loop reads a conversion, and both advance the same pointer. Every character is
put into the buffer percent-encoded, as far as the room lasts.

The model walks the bytes of the format before its terminator. A `double` is kept as the characters
that its conversion puts.
-/

namespace Spigeon

open CInt CStr Printf

/-- `buf` and `size`: the bytes before `buf`, and the room that is left. -/
structure UrlBuf where
  written : List UInt8
  size : ℕ

namespace UrlBuf

/-- `_put`. -/
def put (b : UrlBuf) (c : UInt8) : UrlBuf :=
  if Percent.unreserved c then
    if b.size = 0 then b else ⟨b.written ++ [c], b.size - 1⟩
  else
    match b.size with
    | 0 => b
    | 1 => ⟨b.written ++ [37], 0⟩
    -- not a digit of `HEX`
    | 2 => ⟨b.written ++ [(37 : UInt8), (48 : UInt8) + (c >>> 4)], 0⟩
    | n + 3 => ⟨b.written ++ [37, Percent.hexDigit (c >>> 4), Percent.hexDigit (c &&& 15)], n⟩

/-- A loop of `_put` that does not look at the room. -/
def putAll (b : UrlBuf) (cs : List UInt8) : UrlBuf := cs.foldl put b

/-- `while (width > 0 && size > 0) { _put(' '); width--; }`. -/
def putBlanks : ℕ → UrlBuf → UrlBuf
  | 0, b => b
  | n + 1, b => if b.size = 0 then b else putBlanks n (b.put 32)

end UrlBuf

/-! ### A conversion -/

/-- How far the conversion is read. -/
inductive ConvState
  | flags
  | width
  | precision
  | length
  deriving DecidableEq

def ConvState.code : ConvState → ℕ
  | .flags => 0
  | .width => 1
  | .precision => 2
  | .length => 3

/-- The values of `length`; `hh`, `ll` and `L` are kept as `H`, `L` and `D`. -/
inductive ConvLength
  | none
  | h
  | H
  | l
  | L
  | j
  | z
  | t
  | D
  deriving DecidableEq

/-- The variables of the inner loop. -/
structure Conv where
  state : ConvState := .flags
  alternate : Bool := false
  minus : Bool := false
  plus : Bool := false
  space : Bool := false
  zero : Bool := false
  width : ℤ := 0
  precision : ℤ := 0
  hasprecision : Bool := false
  length : ConvLength := .none

/-- The cases of the inner loop. -/
inductive ConvChar
  | alternate
  | minus
  | plus
  | space
  | digit (d : ℕ)
  | dot
  | star
  | h
  | l
  | j
  | z
  | t
  | L
  | char
  | int (hasneg : Bool) (radix : Radix)
  | pointer
  | double (c : UInt8)
  | string
  | percent
  | other

def ConvChar.of (c : UInt8) : ConvChar :=
  if isDigit c then .digit (c.toNat - 48)
  else
    match Char.ofNat c.toNat with
    | '#' => .alternate
    | '-' => .minus
    | '+' => .plus
    | ' ' => .space
    | '.' => .dot
    | '*' => .star
    | 'h' => .h
    | 'l' => .l
    | 'j' => .j
    | 'z' => .z
    | 't' => .t
    | 'L' => .L
    | 'c' => .char
    | 'i' | 'd' => .int true .decimal
    | 'u' => .int false .decimal
    | 'o' => .int false .octal
    | 'x' => .int false (.hex false)
    | 'X' => .int false (.hex true)
    | 'p' => .pointer
    | 'g' | 'G' | 'f' | 'e' | 'E' => .double c
    | 's' => .string
    | 'n' | '%' => .percent
    | _ => .other

/-- An argument. -/
inductive UrlArg
  | int (v : ℤ)
  | string (val : List UInt8)
  | double (chars : Conv → UInt8 → List UInt8)

/-- A read past the end of the format, and one of an argument that is not there. -/
inductive UrlFault
  | format
  | argument
  deriving DecidableEq

/-! ### Integers -/

/-- The types that the integer conversions are instantiated for. -/
inductive CType
  | int
  | unsignedInt
  | long
  | unsignedLong
  | longLong
  | unsignedLongLong
  | sizeT

/-- Conversion to the type. -/
def CType.wrap : CType → ℤ → ℤ
  | .int, v => toInt v
  | .unsignedInt, v => v % 2 ^ 32
  | .long, v | .longLong, v => toInt64 v
  | .unsignedLong, v | .unsignedLongLong, v | .sizeT, v => toSize v

/-- The type of an integer conversion. -/
def ConvLength.intType (hasneg : Bool) : ConvLength → Option CType
  | .none | .h | .H => some (if hasneg then .int else .unsignedInt)
  | .l => some (if hasneg then .long else .unsignedLong)
  | .L => some (if hasneg then .longLong else .unsignedLongLong)
  | .z => some .sizeT
  | _ => Option.none

/-- The variables of `_out_int_alt`: the buffer, `width`, and `tmp` with its last character
first. -/
structure IntOut where
  buf : UrlBuf
  width : ℤ
  tmp : List UInt8

/-- The character of a digit: `*cur + '0'`, or an entry of `hex` or `HEX`. -/
def digitChar (radix : Radix) (d : ℕ) : UInt8 :=
  match radix with
  | .hex false => (bytes "0123456789abcdef").getD d 0
  | .hex true => (bytes "0123456789ABCDEF").getD d 0
  | _ => UInt8.ofNat (d + 48)

/-- `while (val > 0) { ... val /= base; }`. -/
def pushDigits (radix : Radix) (val : ℕ) (tmp : List UInt8) : List UInt8 :=
  if val = 0 then tmp
  else pushDigits radix (val / radix.base) (digitChar radix (val % radix.base) :: tmp)
termination_by val
decreasing_by exact Nat.div_lt_self (by omega) radix.two_le_base

/-- The digits of `val`. A value that is still negative has none. -/
def intDigits (radix : Radix) (val : ℤ) : List UInt8 :=
  if val = 0 then [48] else pushDigits radix val.toNat []

namespace IntOut

/-- A character before the digits. It goes to the buffer at once if zeros may follow. -/
def push (zero : Bool) (c : UInt8) (s : IntOut) : IntOut :=
  if zero ∧ s.width ≠ 0 then { s with buf := s.buf.put c, width := toInt (s.width - 1) }
  else { s with tmp := c :: s.tmp }

def pushSign (k : Conv) (hasneg negative : Bool) (s : IntOut) : IntOut :=
  if negative then s.push k.zero 45
  else if hasneg && k.plus then s.push k.zero 43
  else if hasneg && k.space then s.push k.zero 32
  else s

/-- `_alt_x`. -/
def pushHex (zero : Bool) (x : UInt8) (s : IntOut) : IntOut :=
  if zero ∧ s.width ≠ 0 then
    { s with
      buf := (s.buf.put 48).put x
      width := if s.width < 2 then 0 else s.width - 2 }
  else { s with tmp := 48 :: x :: s.tmp }

/-- `alt`. -/
def pushAlt (k : Conv) (radix : Radix) (s : IntOut) : IntOut :=
  if k.alternate then
    match radix with
    | .octal => s.push k.zero 48
    | .decimal => s
    | .hex upper => s.pushHex k.zero (if upper then 88 else 120)
  else s

/-- The padding before the number. It leaves `width` as it is. -/
def pad (k : Conv) (s : IntOut) : IntOut :=
  if !k.minus ∧ s.width ≠ 0 then
    { s with
      buf := s.buf.putAll
        (List.replicate (s.width - s.tmp.length).toNat (if k.zero then 48 else 32)) }
  else s

/-- `while (cur >= tmp && size > 0) { _put(*cur--); width--; }`. -/
def emit : List UInt8 → UrlBuf → ℤ → UrlBuf × ℤ
  | [], b, width => (b, width)
  | c :: tmp, b, width =>
    if b.size = 0 then (b, width) else emit tmp (b.put c) (toInt (width - 1))

/-- The padding, the number, and the blanks up to what is left of `width`. -/
def finish (k : Conv) (s : IntOut) : UrlBuf :=
  let s := s.pad k
  let (b, width) := emit s.tmp s.buf s.width
  b.putBlanks width.toNat

end IntOut

/-- `_out_int_alt`, and `_out_int` for decimals. -/
def outIntAlt (type : CType) (hasneg : Bool) (radix : Radix) (k : Conv) (v : ℤ) (b : UrlBuf) :
    UrlBuf :=
  let val := type.wrap v
  let negative := decide (val < 0)
  -- the minimum of a signed type is its own negative
  let val := if val < 0 then type.wrap (-val) else val
  let s : IntOut := ⟨b, k.width, intDigits radix val⟩
  ((s.pushSign k hasneg negative).pushAlt k radix).finish k

/-! ### Strings -/

/-- `while (*val && size && precision)`, with the number of characters. -/
def copyPrecision : List UInt8 → ℤ → UrlBuf → ℕ → UrlBuf × ℕ
  | [], _, b, n => (b, n)
  | c :: val, precision, b, n =>
    if b.size = 0 ∨ precision = 0 then (b, n)
    else copyPrecision val (toInt (precision - 1)) (b.put c) (n + 1)

/-- `while (*val && size)`, with the number of characters. -/
def copyString : List UInt8 → UrlBuf → ℕ → UrlBuf × ℕ
  | [], b, n => (b, n)
  | c :: val, b, n => if b.size = 0 then (b, n) else copyString val (b.put c) (n + 1)

def printAsIs (k : Conv) (val : List UInt8) (b : UrlBuf) : UrlBuf × ℕ :=
  if k.precision ≠ 0 then copyPrecision val k.precision b 0 else copyString val b 0

/-- The case `'s'`. -/
def outString (k : Conv) (val : List UInt8) (b : UrlBuf) : UrlBuf :=
  if k.width ≠ 0 ∧ !k.minus then
    -- the string is measured up to the width
    let len : ℤ := min val.length k.width.toNat
    let len := if k.precision ≠ 0 ∧ len > k.precision then k.precision else len
    if len < k.width then
      (b.putAll (List.replicate (toInt (k.width - len)).toNat 32)).putAll (val.take len.toNat)
    else (printAsIs k val b).1
  else
    let (b, n) := printAsIs k val b
    if k.width ≠ 0 then b.putAll (List.replicate (toInt (k.width - n)).toNat 32) else b

/-! ### The loops -/

/-- What a round of the inner loop leaves. -/
inductive ConvStep
  | more (k : Conv) (args : List UrlArg)
  | ended (b : UrlBuf) (args : List UrlArg)

namespace Conv

def setFlag (k k' : Conv) : Conv := if k.state = .flags then k' else k

/-- The case `'h'`. -/
def setShort (k : Conv) : Conv :=
  { k with length := if k.length = .h then .H else .h, state := .length }

/-- The case `'l'`. -/
def setLong (k : Conv) : Conv :=
  { k with length := if k.length = .l then .L else .l, state := .length }

def setLength (k : Conv) (length : ConvLength) : Conv :=
  { k with length := length, state := .length }

/-- The cases `'0'` to `'9'`. -/
def addDigit (k : Conv) (d : ℕ) : Conv :=
  if d = 0 ∧ k.state = .flags then { k with zero := true }
  else if k.state.code ≤ ConvState.width.code then
    { k with width := toInt (k.width * 10 + d), state := .width }
  else if k.state = .precision then
    { k with precision := toInt (k.precision * 10 + d), hasprecision := true }
  else k

/-- The case `'.'`. -/
def setDot (k : Conv) : Conv :=
  if k.state.code ≤ ConvState.precision.code then
    { k with state := .precision, hasprecision := true }
  else k

/-- The case `'*'`, which falls through to `'h'`. -/
def readStar (k : Conv) (args : List UrlArg) : Except UrlFault ConvStep :=
  if k.state.code ≤ ConvState.precision.code then
    match args with
    | .int v :: args =>
      if k.state.code ≤ ConvState.width.code then
        .ok (.more { k with width := toInt v }.setShort args)
      else .ok (.more { k with precision := toInt v, hasprecision := true }.setShort args)
    | _ => .error .argument
  else .ok (.more k.setShort args)

/-- The integer conversions. Of a length without a case, no argument is read. -/
def outInt (k : Conv) (hasneg : Bool) (radix : Radix) (args : List UrlArg) (b : UrlBuf) :
    Except UrlFault ConvStep :=
  match k.length.intType hasneg with
  | none => .ok (.ended b args)
  | some type =>
    match args with
    | .int v :: args => .ok (.ended (outIntAlt type hasneg radix k v b) args)
    | _ => .error .argument

/-- A round of the inner loop. -/
def step (k : Conv) (args : List UrlArg) (b : UrlBuf) : ConvChar → Except UrlFault ConvStep
  | .alternate => .ok (.more (k.setFlag { k with alternate := true }) args)
  | .minus => .ok (.more (k.setFlag { k with minus := true }) args)
  | .plus => .ok (.more (k.setFlag { k with plus := true }) args)
  | .space => .ok (.more (k.setFlag { k with space := true }) args)
  | .digit d => .ok (.more (k.addDigit d) args)
  | .dot => .ok (.more k.setDot args)
  | .star => k.readStar args
  | .h => .ok (.more k.setShort args)
  | .l => .ok (.more k.setLong args)
  | .j => .ok (.more (k.setLength .j) args)
  | .z => .ok (.more (k.setLength .z) args)
  | .t => .ok (.more (k.setLength .t) args)
  | .L => .ok (.more (k.setLength .D) args)
  | .char =>
    match args with
    | .int v :: args => .ok (.ended (b.put (UInt8.ofNat (v % 2 ^ 8).toNat)) args)
    | _ => .error .argument
  | .int hasneg radix => k.outInt hasneg radix args b
  | .pointer =>
    match args with
    | .int v :: args => .ok (.ended (outIntAlt .unsignedLong false (.hex false) k v b) args)
    | _ => .error .argument
  | .double c =>
    match args with
    | .double chars :: args => .ok (.ended (b.putAll (chars k c)) args)
    | _ => .error .argument
  | .string =>
    match args with
    | .string val :: args => .ok (.ended (outString k val b) args)
    | _ => .error .argument
  | .percent => .ok (.ended (b.put 37) args)
  | .other => .ok (.more k args)

end Conv

/-- Both loops: the outer one at `none`, the inner one at `some`. -/
def urlLoop : List UInt8 → Option Conv → List UrlArg → UrlBuf → Except UrlFault UrlBuf
  | [], none, _, b => .ok b
  -- the inner loop ends at the terminator, and the outer one reads on behind it
  | [], some _, _, _ => .error .format
  | f :: fmt, none, args, b =>
    if b.size = 0 then .ok b
    else if f = 37 then urlLoop fmt (some {}) args b
    else urlLoop fmt none args (b.put f)
  | c :: fmt, some k, args, b =>
    match k.step args b (.of c) with
    | .error e => .error e
    | .ok (.more k args) => urlLoop fmt (some k) args b
    | .ok (.ended b args) => urlLoop fmt none args b

/-- What a call leaves in the buffer: the bytes, the offset at which the terminator is written, and
the result. -/
structure UrlPrinted where
  written : List UInt8
  nul : ℕ
  ret : ℤ

/-- `url_vsnprintf`. -/
def urlVsnprintf (size : ℕ) (fmt : List UInt8) (args : List UrlArg) : Except UrlFault UrlPrinted :=
  (urlLoop fmt none args ⟨[], size⟩).map fun b =>
    ⟨b.written, b.written.length, toInt b.written.length⟩

/-- `url_snprintf`: the arguments are collected. -/
def urlSnprintf (size : ℕ) (fmt : List UInt8) (args : List UrlArg) : Except UrlFault UrlPrinted :=
  urlVsnprintf size fmt args

end Spigeon
