import Mathlib.Data.List.Basic

/-!
# Escapes in quoted text

The grammar of a quoted text with the escapes of C: a backslash with one character, `\xHH` and three
octal digits. A text is cut into tokens from the left, each as long as possible (`tokens`), and a token
stands for one byte (`Token.value`). How large the first octal digit may be is a parameter.
-/

namespace Quoted

def isHex (c : UInt8) : Bool := (48 ≤ c && c ≤ 57) || (97 ≤ c && c ≤ 102) || (65 ≤ c && c ≤ 70)

def isOctal (c : UInt8) : Bool := 48 ≤ c && c ≤ 55

/-- The value of a hexadecimal digit of either case. -/
def hexValue (c : UInt8) : UInt8 :=
  if c ≤ 57 then c - 48 else if c ≤ 70 then c - 55 else c - 87

inductive Token
  | plain (c : UInt8)
  | escape (e : UInt8)
  | hex (h l : UInt8)
  | octal (a b c : UInt8)
  deriving DecidableEq

/-- What a backslash and one character stand for. -/
def named (e : UInt8) : UInt8 :=
  match Char.ofNat e.toNat with
  | 'n' => 10
  | 'r' => 13
  | 't' => 9
  | 'v' => 11
  | 'a' => 7
  | 'b' => 8
  | 'f' => 12
  | '0' => 0
  -- quotes and backslashes among them
  | _ => e

namespace Token

def text : Token → List UInt8
  | .plain c => [c]
  | .escape e => [92, e]
  | .hex h l => [92, 120, h, l]
  | .octal a b c => [92, a, b, c]

/-- **The byte of a token.** -/
def value : Token → UInt8
  | .plain c => c
  | .escape e => named e
  | .hex h l => 16 * hexValue h + hexValue l
  | .octal a b c => 64 * (a - 48) + 8 * (b - 48) + (c - 48)

/-- The digits of the token are digits. -/
def WellFormed (top : UInt8) : Token → Prop
  | .hex h l => isHex h = true ∧ isHex l = true
  | .octal a b c => 48 ≤ a ∧ a ≤ top ∧ isOctal b = true ∧ isOctal c = true
  | _ => True

instance (top : UInt8) : ∀ tok : Token, Decidable (tok.WellFormed top)
  | .hex h l => inferInstanceAs (Decidable (isHex h = true ∧ isHex l = true))
  | .octal a b c => inferInstanceAs (Decidable (48 ≤ a ∧ a ≤ top ∧ isOctal b = true ∧ isOctal c = true))
  | .plain _ => isTrue trivial
  | .escape _ => isTrue trivial

end Token

/-- The first token of a text. -/
def next (top : UInt8) : List UInt8 → Option (Token × List UInt8)
  | [] => none
  | c :: rest =>
    if c = 92 then
      match rest with
      | [] => some (.plain c, [])
      | [e] => some (.escape e, [])
      | [e, d] => some (.escape e, [d])
      | e :: d :: d' :: rest =>
        if e = 120 ∧ isHex d ∧ isHex d' then some (.hex d d', rest)
        else if 48 ≤ e ∧ e ≤ top ∧ isOctal d ∧ isOctal d' then some (.octal e d d', rest)
        else some (.escape e, d :: d' :: rest)
    else some (.plain c, rest)

theorem Token.text_length_pos (tok : Token) : 0 < tok.text.length := by
  cases tok <;> simp [Token.text]

theorem text_append_of_next {top : UInt8} {v rest : List UInt8} {tok : Token}
    (h : next top v = some (tok, rest)) : v = tok.text ++ rest := by
  unfold next at h
  split at h
  next => cases h
  next c rest' =>
    split at h
    next hc =>
      subst hc
      split at h
      next => cases h; rfl
      next => cases h; rfl
      next => cases h; rfl
      next e d d' rest'' =>
        split at h
        next hx => cases h; rw [hx.1]; rfl
        next =>
          split at h
          next => cases h; rfl
          next => cases h; rfl
    next => cases h; rfl

theorem wellFormed_of_next {top : UInt8} {v rest : List UInt8} {tok : Token}
    (h : next top v = some (tok, rest)) : tok.WellFormed top := by
  rcases v with _ | ⟨c, _ | ⟨e, _ | ⟨d, _ | ⟨d', v⟩⟩⟩⟩ <;> simp only [next] at h
  · cases h
  · split at h <;> cases h <;> trivial
  · split at h <;> cases h <;> trivial
  · split at h <;> cases h <;> trivial
  · split_ifs at h with hc hx ho
    · cases h; exact hx.2
    · cases h; exact ho
    · cases h; trivial
    · cases h; trivial

theorem length_of_next {top : UInt8} {v rest : List UInt8} {tok : Token}
    (h : next top v = some (tok, rest)) : rest.length < v.length := by
  have hpos := tok.text_length_pos
  rw [text_append_of_next h, List.length_append]
  omega

/-- The tokens of a text. -/
def tokens (top : UInt8) (v : List UInt8) : List Token :=
  match _h : next top v with
  | none => []
  | some (tok, rest) => tok :: tokens top rest
termination_by v.length
decreasing_by exact length_of_next _h

/-- **What a quoted text stands for.** The first octal digit is at most 3. -/
def decode (v : List UInt8) : List UInt8 := (tokens 51 v).map Token.value

theorem tokens_nil (top : UInt8) : tokens top [] = [] := by
  rw [tokens]
  rfl

theorem tokens_of_next {top : UInt8} {v rest : List UInt8} {tok : Token}
    (h : next top v = some (tok, rest)) : tokens top v = tok :: tokens top rest := by
  rw [tokens]
  split
  next hnone => rw [h] at hnone; cases hnone
  next heq => rw [h] at heq; cases heq; rfl

theorem tokens_plain (top : UInt8) {c : UInt8} (h : c ≠ 92) (v : List UInt8) :
    tokens top (c :: v) = .plain c :: tokens top v :=
  tokens_of_next (by simp [next, h])

theorem next_ne_none (top c : UInt8) (rest : List UInt8) : next top (c :: rest) ≠ none := by
  rcases rest with _ | ⟨e, _ | ⟨d, _ | ⟨d', rest⟩⟩⟩ <;> simp only [next] <;> split_ifs <;> simp

/-- Induction over the tokens of a text. -/
theorem tokens_induction (top : UInt8) {P : List UInt8 → Prop} (hnil : P [])
    (hnext : ∀ v tok rest, next top v = some (tok, rest) → P rest → P v) (v : List UInt8) : P v := by
  induction hn : v.length using Nat.strongRecOn generalizing v with
  | _ n ih =>
    cases v with
    | nil => exact hnil
    | cons c v =>
      obtain ⟨⟨tok, rest⟩, hv⟩ := Option.ne_none_iff_exists'.mp (next_ne_none top c v)
      exact hnext _ tok rest hv (ih _ (hn ▸ length_of_next hv) rest rfl)

theorem wellFormed_of_mem {top : UInt8} {v : List UInt8} {tok : Token} (h : tok ∈ tokens top v) :
    tok.WellFormed top := by
  induction v using tokens_induction top with
  | hnil => simp [tokens_nil] at h
  | hnext v tok' rest hnext ih =>
    rw [tokens_of_next hnext, List.mem_cons] at h
    rcases h with rfl | h
    · exact wellFormed_of_next hnext
    · exact ih h

/-! ### Octal escapes -/

/-- The escape of a byte in three octal digits. -/
def octalEscape (b : UInt8) : Token :=
  .octal ((48 : UInt8) + (b >>> 6)) ((48 : UInt8) + ((b >>> 3) &&& 7)) ((48 : UInt8) + (b &&& 7))

theorem octalEscape_spec (b : UInt8) :
    (octalEscape b).WellFormed 51 ∧ (octalEscape b).value = b := by
  have hall : ∀ k : Fin 256, (octalEscape (UInt8.ofNat k)).WellFormed 51 ∧
      (octalEscape (UInt8.ofNat k)).value = UInt8.ofNat k := by decide +kernel
  simpa using hall ⟨b.toNat, b.toNat_lt⟩

/-- A text with each byte written as such an escape. -/
def octalText (s : List UInt8) : List UInt8 := s.flatMap fun b => (octalEscape b).text

theorem next_octal {a b c : UInt8} (h : (Token.octal a b c).WellFormed 51) (rest : List UInt8) :
    next 51 ((Token.octal a b c).text ++ rest) = some (.octal a b c, rest) := by
  have ho : 48 ≤ a ∧ a ≤ 51 ∧ isOctal b = true ∧ isOctal c = true := h
  have hx : a ≠ 120 := by
    rintro rfl
    exact absurd ho.2.1 (by decide)
  simp [Token.text, next, hx, ho]

theorem tokens_octalText (s : List UInt8) : tokens 51 (octalText s) = s.map octalEscape := by
  induction s with
  | nil => exact tokens_nil 51
  | cons b s ih =>
    have hcons : octalText (b :: s) = (octalEscape b).text ++ octalText s := List.flatMap_cons
    have hnext : next 51 ((octalEscape b).text ++ octalText s) = some (octalEscape b, octalText s) :=
      next_octal (octalEscape_spec b).1 _
    rw [hcons, tokens_of_next hnext, ih, List.map_cons]

theorem decode_octalText (s : List UInt8) : decode (octalText s) = s := by
  rw [decode, tokens_octalText, List.map_map]
  exact (List.map_congr_left fun b _ => (octalEscape_spec b).2).trans (List.map_id s)

end Quoted
