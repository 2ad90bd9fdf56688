import Mathlib.Data.List.Basic

/-!
# Percent-encoding

The encoding of section 2 of RFC 3986: an unreserved character stands for itself, any other byte
is written as `%` and two hexadecimal digits. Encoding writes capital digits, decoding reads both
cases. Decoding is a left inverse (`decode_encode`), so different texts have different encodings.
-/

namespace Percent

/-- Letters, digits, `-`, `.`, `_` and `~`. -/
def unreserved (c : UInt8) : Bool :=
  (65 ≤ c && c ≤ 90) || (97 ≤ c && c ≤ 122) || (48 ≤ c && c ≤ 57) ||
    c = 45 || c = 46 || c = 95 || c = 126

/-- The digit of a number below 16. -/
def hexDigit (n : UInt8) : UInt8 := if n < 10 then n + 48 else n + 55

def encodeByte (c : UInt8) : List UInt8 :=
  if unreserved c then [c] else [37, hexDigit (c >>> 4), hexDigit (c &&& 15)]

def encode (cs : List UInt8) : List UInt8 := cs.flatMap encodeByte

def hexVal (c : UInt8) : Option UInt8 :=
  if 48 ≤ c && c ≤ 57 then some (c - 48)
  else if 65 ≤ c && c ≤ 70 then some (c - 55)
  else if 97 ≤ c && c ≤ 102 then some (c - 87)
  else none

/-- `none` where a `%` is not followed by two digits. -/
def decode : List UInt8 → Option (List UInt8)
  | [] => some []
  | c :: rest =>
    if c = 37 then
      match rest with
      | hi :: lo :: rest =>
        (hexVal hi).bind fun a => (hexVal lo).bind fun b =>
          (decode rest).map fun cs => (16 * a + b) :: cs
      | _ => none
    else (decode rest).map fun cs => c :: cs

/-- A digit, or a letter from `A` to `F`. -/
def capitalHex (c : UInt8) : Bool := (48 ≤ c && c ≤ 57) || (65 ≤ c && c ≤ 70)

/-- Unreserved characters, and `%` with two digits. -/
inductive Encoded : List UInt8 → Prop
  | nil : Encoded []
  | char {c : UInt8} {rest : List UInt8} :
    unreserved c = true → Encoded rest → Encoded (c :: rest)
  | triple {hi lo : UInt8} {rest : List UInt8} :
    capitalHex hi = true → capitalHex lo = true → Encoded rest → Encoded (37 :: hi :: lo :: rest)

theorem ne_percent_of_unreserved {c : UInt8} (h : unreserved c = true) : c ≠ 37 := by
  rintro rfl
  exact absurd h (by decide)

theorem hexVal_hexDigit {n : UInt8} (h : n < 16) : hexVal (hexDigit n) = some n := by
  have hall : ∀ k : Fin 16, hexVal (hexDigit (UInt8.ofNat k)) = some (UInt8.ofNat k) := by decide
  have hn : n.toNat < 16 := h
  simpa using hall ⟨n.toNat, hn⟩

theorem capitalHex_hexDigit {n : UInt8} (h : n < 16) : capitalHex (hexDigit n) = true := by
  have hall : ∀ k : Fin 16, capitalHex (hexDigit (UInt8.ofNat k)) = true := by decide
  have hn : n.toNat < 16 := h
  simpa using hall ⟨n.toNat, hn⟩

theorem nibbles (c : UInt8) :
    (c >>> 4 < 16 ∧ (c &&& 15) < 16) ∧ (16 : UInt8) * (c >>> 4) + (c &&& 15) = c := by
  have hall : ∀ k : Fin 256,
      (UInt8.ofNat k >>> 4 < 16 ∧ (UInt8.ofNat k &&& 15) < 16) ∧
        (16 : UInt8) * (UInt8.ofNat k >>> 4) + (UInt8.ofNat k &&& 15) = UInt8.ofNat k := by
    decide +kernel
  simpa using hall ⟨c.toNat, c.toNat_lt⟩

theorem decode_cons_of_ne {c : UInt8} (h : c ≠ 37) (rest : List UInt8) :
    decode (c :: rest) = (decode rest).map fun cs => c :: cs := by
  rcases rest with _ | ⟨a, _ | ⟨b, rest⟩⟩ <;> simp [decode, h]

theorem decode_encodeByte_append (c : UInt8) (rest : List UInt8) :
    decode (encodeByte c ++ rest) = (decode rest).map fun cs => c :: cs := by
  unfold encodeByte
  split
  next h => exact decode_cons_of_ne (ne_percent_of_unreserved h) rest
  next h =>
    obtain ⟨⟨hhi, hlo⟩, heq⟩ := nibbles c
    simp [decode, hexVal_hexDigit hhi, hexVal_hexDigit hlo, heq]

theorem encode_cons (c : UInt8) (cs : List UInt8) : encode (c :: cs) = encodeByte c ++ encode cs :=
  List.flatMap_cons

theorem encode_singleton (c : UInt8) : encode [c] = encodeByte c := by
  rw [encode_cons]
  exact List.append_nil _

/-- **Decoding undoes encoding.** -/
theorem decode_encode (cs : List UInt8) : decode (encode cs) = some cs := by
  induction cs with
  | nil => rfl
  | cons c cs ih =>
    rw [encode_cons, decode_encodeByte_append, ih, Option.map_some]

theorem encode_inj {cs ds : List UInt8} (h : encode cs = encode ds) : cs = ds := by
  have hdec := decode_encode cs
  rw [h, decode_encode] at hdec
  exact (Option.some.inj hdec).symm

theorem encoded_encode (cs : List UInt8) : Encoded (encode cs) := by
  induction cs with
  | nil => exact .nil
  | cons c cs ih =>
    rw [encode_cons, encodeByte]
    split
    next hc => exact .char hc ih
    next hc =>
      obtain ⟨⟨hhi, hlo⟩, -⟩ := nibbles c
      exact .triple (capitalHex_hexDigit hhi) (capitalHex_hexDigit hlo) ih

theorem encode_append (cs ds : List UInt8) : encode (cs ++ ds) = encode cs ++ encode ds :=
  List.flatMap_append

theorem encodeByte_length_le (c : UInt8) : (encodeByte c).length ≤ 3 := by
  unfold encodeByte
  split <;> simp

theorem encode_length_le (cs : List UInt8) : (encode cs).length ≤ 3 * cs.length := by
  induction cs with
  | nil => simp [encode]
  | cons c cs ih =>
    have hc := encodeByte_length_le c
    rw [encode_cons, List.length_append, List.length_cons]
    omega

end Percent
