import Mathlib.Data.List.DropRight
import Spigeon.Lib.CStr
import Spigeon.Spec.Sds

/-!
# Operations of simple dynamic strings

The rest of `util/sds.cpp`, but for the functions that split and quote. `init` and `t` are bytes outside of the
string's own block. `text` is what a format and its arguments come to. A run of operations on one string is
compared with the same run on a list of bytes (`SdsOp.exec`, `SdsOp.apply`).
-/

namespace Spigeon

open CInt CStr

/-! ### The functions -/

/-- `sdsnewlen`. A `NULL` is a block of zeros; more than the bytes there are must not be copied. -/
def sdsnewlen (init : Option (List UInt8)) (initlen : ℕ) : Option Sds :=
  match init with
  | none => some ⟨toInt initlen, 0, List.replicate (initlen + 1) 0⟩
  | some bs => if initlen ≤ bs.length then some ⟨toInt initlen, 0, bs.take initlen ++ [0]⟩ else none

def sdsdup (s : Sds) : Option Sds := sdsnewlen (some s.buf) (sdslen s)

/-- `sdsupdatelen`. `strlen` must find a zero in the block. -/
def sdsupdatelen (s : Sds) : Option Sds :=
  if 0 ∈ s.buf then
    let reallen := toInt (cStr s.buf).length
    some { s with free := toInt (s.free + (s.len - reallen)), len := reallen }
  else none

def sdsclear (s : Sds) : Option Sds :=
  (poke s.buf 0 [0]).map fun b => ⟨0, toInt (s.free + s.len), b⟩

def sdsRemoveFreeSpace (fill : ℕ → UInt8) (s : Sds) : Sds :=
  let block := (sdshdrSize + toSize s.len + 1) % 2 ^ 64 - sdshdrSize
  { s with free := 0, buf := zrealloc fill s.buf block }

def sdsAllocSize (s : Sds) : ℕ := (sdshdrSize + toSize s.len + toSize s.free + 1) % 2 ^ 64

/-- `sdsgrowzero`. The zeros reach over the terminator. -/
def sdsgrowzero (fill : ℕ → UInt8) (s : Sds) (len : ℕ) : Option Sds :=
  let curlen := toSize s.len
  if len ≤ curlen then some s
  else
    let s := sdsMakeRoomFor fill s (len - curlen)
    let totlen := toSize (toInt (s.len + s.free))
    (poke s.buf curlen (List.replicate (len - curlen + 1) 0)).map fun b =>
      ⟨toInt len, toInt ((totlen : ℤ) - toInt len), b⟩

def sdscatlen (fill : ℕ → UInt8) (s : Sds) (t : List UInt8) : Option Sds := do
  let curlen := sdslen s
  let s := sdsMakeRoomFor fill s t.length
  let b ← poke s.buf curlen t
  let b ← poke b (curlen + t.length) [0]
  some ⟨toInt ((curlen : ℤ) + t.length), toInt (s.free - t.length), b⟩

/-- The string with room for `len` characters. -/
def cpyRoom (fill : ℕ → UInt8) (s : Sds) (len : ℕ) : Sds :=
  if toSize (toInt (s.free + s.len)) < len then sdsMakeRoomFor fill s (toSize ((len : ℤ) - s.len)) else s

def sdscpylen (fill : ℕ → UInt8) (s : Sds) (t : List UInt8) : Option Sds := do
  let s := cpyRoom fill s t.length
  let totlen := toSize (toInt (s.free + s.len))
  let b ← poke s.buf 0 t
  let b ← poke b t.length [0]
  some ⟨toInt t.length, toInt ((totlen : ℤ) - t.length), b⟩

/-- The loop of `sdscatvprintf` with a buffer of `16 * 2 ^ k` bytes. Its last byte but one is zero before
`vsnprintf`, so that it shows whether the text was cut. -/
def vprintfBuf (text : List UInt8) (k : ℕ) : List UInt8 :=
  if text[16 * 2 ^ k - 2]?.getD 0 ≠ 0 then vprintfBuf text (k + 1) else text.take (16 * 2 ^ k - 1)
termination_by text.length - k
decreasing_by
  rename_i hcut
  have hlt : 16 * 2 ^ k - 2 < text.length := by
    by_contra hge
    rw [List.getElem?_eq_none (by omega)] at hcut
    exact hcut rfl
  have hpow : k < 2 ^ k := Nat.lt_two_pow_self
  omega

def sdscatprintf (fill : ℕ → UInt8) (s : Sds) (text : List UInt8) : Option Sds :=
  sdscatlen fill s (cStr (vprintfBuf text 0))

/-- `strchr(cset, b)`, which finds the terminator of the set, too. -/
def inCset (cset : List UInt8) (b : UInt8) : Bool := b = 0 || b ∈ cset

/-- `while (ep > start && strchr(cset, *ep)) ep--;` -/
def trimEnd (cset buf : List UInt8) : ℕ → ℕ
  | 0 => 0
  | ep + 1 => if inCset cset (buf[ep + 1]?.getD 0) then trimEnd cset buf ep else ep + 1

/-- `sp > ep ? 0 : ep - sp + 1`. The end of an empty string is before its start. -/
def trimLen (cset buf : List UInt8) (len sp : ℕ) : ℕ :=
  let ep : ℤ := if len = 0 then -1 else trimEnd cset buf (len - 1)
  if (sp : ℤ) > ep then 0 else (ep - sp + 1).toNat

def sdstrim (s : Sds) (cset : List UInt8) : Option Sds := do
  let sp := (s.content.takeWhile (inCset cset)).length
  let len := trimLen cset s.buf (sdslen s) sp
  let b ← poke s.buf 0 ((s.buf.drop sp).take len)
  let b ← poke b len [0]
  some ⟨toInt len, toInt (s.free + (s.len - len)), b⟩

/-- `toupper`. -/
def toUpper (b : UInt8) : UInt8 := if 97 ≤ b ∧ b ≤ 122 then b - 32 else b

/-- The characters are replaced one by one. -/
def mapContent (f : UInt8 → UInt8) (s : Sds) : Sds := { s with buf := s.content.map f ++ s.buf.drop (sdslen s) }

def sdstolower (s : Sds) : Sds := mapContent toLower s

def sdstoupper (s : Sds) : Sds := mapContent toUpper s

/-- The inner loop of `sdsmapchars`, with both arrays side by side. -/
def mapChar : List (UInt8 × UInt8) → UInt8 → UInt8
  | [], b => b
  | (f, t) :: set, b => if b = f then t else mapChar set b

def sdsmapchars (s : Sds) (set : List (UInt8 × UInt8)) : Sds := mapContent (mapChar set) s

/-- `s = sdsMakeRoomFor(s, room);` then some bytes are stored behind the string, and `sdsIncrLen` counts them. -/
def sdsReceive (fill : ℕ → UInt8) (s : Sds) (room : ℕ) (bs : List UInt8) : Option Sds := do
  let oldlen := sdslen s
  let s := sdsMakeRoomFor fill s room
  let b ← poke s.buf oldlen bs
  sdsIncrLen { s with buf := b } bs.length

/-! ### Runs of operations -/

inductive SdsOp
  /-- What follows is done with the copy. -/
  | dup
  | catlen (t : List UInt8)
  | cpylen (t : List UInt8)
  | catprintf (text : List UInt8)
  | receive (room : ℕ) (bs : List UInt8)
  | growzero (len : ℕ)
  | makeRoomFor (addlen : ℕ)
  | removeFreeSpace
  /-- `sdsIncrLen(s, -n)`. -/
  | shorten (n : ℕ)
  | range (start stop : ℤ)
  | trim (cset : List UInt8)
  | updatelen
  | clear
  | tolower
  | toupper
  | mapchars (set : List (UInt8 × UInt8))
deriving DecidableEq, Repr

namespace SdsOp

/-- The operation on the string. `fill` is what fresh memory holds. -/
def exec (s : Sds) : SdsOp × (ℕ → UInt8) → Option Sds
  | (.dup, _) => sdsdup s
  | (.catlen t, fill) => sdscatlen fill s t
  | (.cpylen t, fill) => sdscpylen fill s t
  | (.catprintf text, fill) => sdscatprintf fill s text
  | (.receive room bs, fill) => sdsReceive fill s room bs
  | (.growzero len, fill) => sdsgrowzero fill s len
  | (.makeRoomFor addlen, fill) => some (sdsMakeRoomFor fill s addlen)
  | (.removeFreeSpace, fill) => some (sdsRemoveFreeSpace fill s)
  | (.shorten n, _) => sdsIncrLen s (-n)
  | (.range start stop, _) => some (sdsrange s start stop)
  | (.trim cset, _) => sdstrim s cset
  | (.updatelen, _) => sdsupdatelen s
  | (.clear, _) => sdsclear s
  | (.tolower, _) => some (sdstolower s)
  | (.toupper, _) => some (sdstoupper s)
  | (.mapchars set, _) => some (sdsmapchars s set)

/-- An index from the start, or from the end if it is negative. -/
def index (len : ℕ) (i : ℤ) : ℕ := if i < 0 then (len + i).toNat else i.toNat

/-- The bytes from one index to another one, both included. -/
def slice (c : List UInt8) (start stop : ℤ) : List UInt8 :=
  if index c.length start > index c.length stop then []
  else (c.drop (index c.length start)).take (index c.length stop - index c.length start + 1)

/-- The operation on a list of bytes. -/
def apply (c : List UInt8) : SdsOp → Option (List UInt8)
  | .dup => some c
  | .catlen t => some (c ++ t)
  | .cpylen t => some t
  | .catprintf text => some (c ++ cStr text)
  | .receive _ bs => some (c ++ bs)
  | .growzero len => some (c ++ List.replicate (len - c.length) 0)
  | .makeRoomFor _ => some c
  | .removeFreeSpace => some c
  | .shorten n => if n ≤ c.length then some (c.take (c.length - n)) else none
  | .range start stop => some (slice c start stop)
  | .trim cset => some ((c.dropWhile (inCset cset)).rdropWhile (inCset cset))
  | .updatelen => some (cStr c)
  | .clear => some []
  | .tolower => some (c.map toLower)
  | .toupper => some (c.map toUpper)
  | .mapchars set => some (c.map (mapChar set))

/-- The sizes are such that the `int` fields of the header hold them, with what `sdsMakeRoomFor` reserves, and
arguments of type `int` are of that type. -/
def Fits (c : List UInt8) : SdsOp → Prop
  | .catlen t => c.length + t.length + sdsMaxPrealloc < 2 ^ 31
  | .cpylen t => t.length + sdsMaxPrealloc < 2 ^ 31
  | .catprintf text => c.length + text.length + sdsMaxPrealloc < 2 ^ 31
  | .receive room bs => c.length + room + sdsMaxPrealloc < 2 ^ 31 ∧ bs.length ≤ room
  | .growzero len => len + sdsMaxPrealloc < 2 ^ 31
  | .makeRoomFor addlen => c.length + addlen + sdsMaxPrealloc < 2 ^ 31
  | .shorten n => n ≤ 2 ^ 31
  | .range start stop => -2 ^ 31 ≤ start ∧ start < 2 ^ 31 ∧ -2 ^ 31 ≤ stop ∧ stop < 2 ^ 31
  | _ => True

end SdsOp

/-- Bytes are appended, and the calls that move the block are counted. -/
def appendCounted (p : Sds × ℕ) (l : List UInt8 × (ℕ → UInt8)) : Option (Sds × ℕ) :=
  (sdscatlen l.2 p.1 l.1).map fun s => (s, if l.1.length ≤ sdsavail p.1 then p.2 else p.2 + 1)

end Spigeon
