import Mathlib.Data.List.DropRight
import Spigeon.Lib.CInt
import Spigeon.Lib.CStr

/-!
# Names of files

`FileUtil::dirname` and `FileUtil::basename` of `util/file.cpp`. A `std::string` is the
list of its bytes, zeros included. Both functions walk backwards with a signed 32-bit
index; an index outside the string is `none`.
-/

namespace Spigeon

open CInt

/-- `'/'`. -/
def slash : UInt8 := 47

/-- `'.'`. -/
def dot : UInt8 := 46

/-- `while (last >= lo && p(s[last])) --last;`, entered with `last = lo + n - 1`. -/
def backWhile (p : UInt8 → Bool) (s : List UInt8) (lo : ℕ) : ℕ → ℤ
  | 0 => lo - 1
  | n + 1 => if p (s.getD (lo + n) 0) then backWhile p s lo n else lo + n

/-- The same loop, entered with any `last`. -/
def skipBack (p : UInt8 → Bool) (s : List UInt8) (lo : ℕ) (last : ℤ) : ℤ :=
  if last < lo then last else backWhile p s lo (last + 1 - lo).toNat

/-- `s[i] = '\0'`. The terminator itself may be overwritten with a zero. -/
def putNul (s : List UInt8) (i : ℤ) : Option (List UInt8) :=
  if 0 ≤ i ∧ i ≤ s.length then some (s.set i.toNat 0) else none

/-- The end of `dirname`: the slashes before `last` are cut off, but not the root's. -/
def dropLastSlash (parent : List UInt8) (last : ℤ) (reserveLastSlash : Bool) :
    Option (List UInt8) :=
  if reserveLastSlash then some parent
  else putNul parent (skipBack (· = slash) parent 1 last + 1)

/-- `FileUtil::dirname`. -/
def dirname (pathname : List UInt8) (reserveLastSlash : Bool) : Option (List UInt8) :=
  let last := skipBack (· = slash) pathname 0 (toInt ((pathname.length : ℤ) - 1))
  -- slashes only: the root
  if last = -1 then some [slash]
  else
    let last := skipBack (· ≠ slash) pathname 0 last
    -- no slash before the name: the working directory
    if last = -1 then dropLastSlash [dot, slash] 1 reserveLastSlash
    else
      -- the size of the string stays what it was
      (putNul pathname (last + 1)).bind fun parent => dropLastSlash parent last reserveLastSlash

/-- `s.substr(pos, len)`, which throws when `pos` is behind the end. -/
def substr (s : List UInt8) (pos len : ℤ) : Option (List UInt8) :=
  if toSize pos ≤ s.length then some ((s.drop (toSize pos)).take (toSize len)) else none

/-- `FileUtil::basename`. The second loop counts its steps in `len`. -/
def basename (pathname : List UInt8) : Option (List UInt8) :=
  let last := skipBack (· = slash) pathname 0 (toInt ((pathname.length : ℤ) - 1))
  if last = -1 then some [slash]
  else
    let first := skipBack (· ≠ slash) pathname 0 last
    substr pathname (first + 1) (last - first)

end Spigeon
