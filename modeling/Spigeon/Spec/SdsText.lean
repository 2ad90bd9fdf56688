import Spigeon.Lib.Printf
import Spigeon.Spec.Config
import Spigeon.Spec.SdsOps

/-!
# Strings that are quoted and split

`sdscatrepr` and `sdssplitlen` of `util/sds.cpp`. `sdscatrepr` is given by the calls it makes, one for each
byte. A text has its own length here, so that `len` and `seplen` are the lengths of `s` and `sep`; a read or a
write outside of an array is `none`.
-/

namespace Spigeon

open CInt

/-! ### Quoting -/

/-- `isprint`. -/
def isPrint (b : UInt8) : Bool := 32 ≤ b && b ≤ 126

/-- `%02x`. -/
def hexByte (b : UInt8) : List UInt8 := Printf.justify false true 2 [] (Printf.numeral (.hex false) b.toNat)

/-- The call for one byte. -/
def reprCall (b : UInt8) : SdsOp :=
  if b = backslash ∨ b = doubleQuote then .catprintf [backslash, b]
  else if b = 10 then .catlen [backslash, 110] -- \n
  else if b = 13 then .catlen [backslash, 114] -- \r
  else if b = 9 then .catlen [backslash, 116] -- \t
  else if b = 7 then .catlen [backslash, 97] -- \a
  else if b = 8 then .catlen [backslash, 98] -- \b
  else if isPrint b then .catprintf [b]
  else .catprintf (backslash :: 120 :: hexByte b)

/-- The calls of `sdscatrepr`. -/
def sdscatrepr (p : List UInt8) : List SdsOp :=
  .catlen [doubleQuote] :: (p.map reprCall ++ [.catlen [doubleQuote]])

/-- A line of quoted arguments, with a blank between any two of them. -/
def quotedLine : List (List UInt8) → List SdsOp
  | [] => []
  | [arg] => sdscatrepr arg
  | arg :: args => sdscatrepr arg ++ .catlen [32] :: quotedLine args

/-! ### Splitting -/

/-- The variables of `sdssplitlen`. `elements` is the length of `tokens`. -/
structure SplitState where
  tokens : List (List UInt8)
  slots : ℤ
  start : ℕ
  j : ℕ
deriving DecidableEq, Repr

/-- `(seplen == 1 && *(s+j) == sep[0]) || (memcmp(s+j,sep,seplen) == 0)`, which reads `seplen` bytes of the
text. -/
def foundAt (s sep : List UInt8) (j : ℕ) : Option Bool :=
  if j + sep.length ≤ s.length then
    some ((sep.length = 1 && s[j]? = sep[0]?) || (s.drop j).take sep.length = sep)
  else none

/-- `tokens[elements] = sdsnewlen(s+from,n)`. -/
def SplitState.store (st : SplitState) (s : List UInt8) (n : ℕ) : Option (List (List UInt8)) :=
  if (st.tokens.length : ℤ) < st.slots ∧ st.start + n ≤ s.length then
    some (st.tokens ++ [(s.drop st.start).take n])
  else none

/-- Room for the next element and the final one. -/
def SplitState.grow (st : SplitState) : SplitState :=
  if st.slots < st.tokens.length + 2 then { st with slots := toInt (st.slots * 2) } else st

/-- One pass of the loop. -/
def splitPass (s sep : List UInt8) (st : SplitState) : Option SplitState :=
  (foundAt s sep st.j).bind fun found =>
    if found then
      (st.grow.store s (st.j - st.start)).map fun tokens =>
        -- the separator is skipped
        { st.grow with tokens := tokens, start := st.j + sep.length, j := st.j + sep.length - 1 + 1 }
    else some { st.grow with j := st.j + 1 }

theorem splitPass_j {s sep : List UInt8} {st st' : SplitState} (h : splitPass s sep st = some st')
    (hsep : sep ≠ []) :
    st.j < st'.j := by
  have hpos := List.length_pos_of_ne_nil hsep
  rw [splitPass] at h
  obtain ⟨found, -, h⟩ := Option.bind_eq_some_iff.1 h
  split at h
  · obtain ⟨tokens, -, rfl⟩ := Option.map_eq_some_iff.1 h
    dsimp only
    omega
  · cases h
    exact Nat.lt_succ_self st.j

/-- The loop: `j < len-(seplen-1)`, for a separator that is not empty. -/
def splitLoop (s sep : List UInt8) (st : SplitState) : Option SplitState :=
  if _hin : st.j + sep.length ≤ s.length ∧ sep ≠ [] then
    match _hpass : splitPass s sep st with
    | none => none
    | some st' => splitLoop s sep st'
  else some st
termination_by s.length - st.j
decreasing_by
  have hj := splitPass_j _hpass _hin.2
  have hpos := List.length_pos_of_ne_nil _hin.2
  omega

/-- `sdssplitlen`; the inner `none` is `NULL`. -/
def sdssplitlen (s sep : List UInt8) : Option (Option (List (List UInt8))) :=
  if sep = [] then some none
  else if s = [] then some (some [])
  else
    (splitLoop s sep ⟨[], 5, 0, 0⟩).bind fun st => (st.store s (s.length - st.start)).map some

end Spigeon
