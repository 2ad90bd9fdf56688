import Spigeon.Spec.UrlPrintf

/-!
# Conversions in encoded text

With enough room the formatter appends the encoding of a text (`UrlBuf.append`). A conversion is
read as it is written (`urlLoop_format`). What is printed for an integer is the sign, the prefix and
the digits in the field of the conversion, and then blanks up to the width once more, unless the
field is justified to the left (`outIntAlt_eq`).
-/

namespace Spigeon

open CInt CStr Printf

/-! ### Room -/

namespace UrlBuf

/-- The buffer after the encoding of `cs`. -/
def append (b : UrlBuf) (cs : List UInt8) : UrlBuf :=
  ⟨b.written ++ Percent.encode cs, b.size - (Percent.encode cs).length⟩

@[simp] theorem append_nil (b : UrlBuf) : b.append [] = b := by
  simp [append, Percent.encode]

@[simp] theorem append_append (b : UrlBuf) (cs ds : List UInt8) :
    (b.append cs).append ds = b.append (cs ++ ds) := by
  simp [append, Percent.encode_append, Nat.sub_add_eq]

theorem room_append {b : UrlBuf} {cs : List UInt8} {n : ℕ} (h : 3 * (cs.length + n) ≤ b.size) :
    3 * n ≤ (b.append cs).size := by
  have hlen := Percent.encode_length_le cs
  change 3 * n ≤ b.size - (Percent.encode cs).length
  omega

theorem put_eq {b : UrlBuf} (c : UInt8) (h : 3 ≤ b.size) : b.put c = b.append [c] := by
  obtain ⟨written, size⟩ := b
  obtain ⟨n, rfl⟩ : ∃ n, size = n + 3 := ⟨size - 3, by simp only at h; omega⟩
  by_cases hc : Percent.unreserved c = true <;>
    simp [put, append, Percent.encode, Percent.encodeByte, hc]

theorem putAll_eq {b : UrlBuf} {cs : List UInt8} (h : 3 * cs.length ≤ b.size) :
    b.putAll cs = b.append cs := by
  induction cs generalizing b with
  | nil => simp [putAll]
  | cons c cs ih =>
    rw [List.length_cons] at h
    have hroom : 3 * cs.length ≤ (b.append [c]).size := room_append (by simp; omega)
    have hstep : b.putAll (c :: cs) = (b.put c).putAll cs := rfl
    rw [hstep, put_eq c (by omega), ih hroom, append_append, List.singleton_append]

theorem put_of_full {b : UrlBuf} (h : b.size = 0) (c : UInt8) : b.put c = b := by
  obtain ⟨written, size⟩ := b
  obtain rfl : size = 0 := h
  by_cases hc : Percent.unreserved c = true <;> simp [put, hc]

theorem putAll_of_full {b : UrlBuf} (h : b.size = 0) (cs : List UInt8) : b.putAll cs = b := by
  induction cs with
  | nil => rfl
  | cons c cs ih =>
    have hstep : b.putAll (c :: cs) = (b.put c).putAll cs := rfl
    rw [hstep, put_of_full h, ih]

theorem putAll_append (b : UrlBuf) (cs ds : List UInt8) :
    b.putAll (cs ++ ds) = (b.putAll cs).putAll ds :=
  List.foldl_append

theorem putAll_singleton (b : UrlBuf) (c : UInt8) : b.putAll [c] = b.put c := rfl

theorem putBlanks_eq_putAll (n : ℕ) (b : UrlBuf) : b.putBlanks n = b.putAll (List.replicate n 32) := by
  induction n generalizing b with
  | zero => rfl
  | succ n ih =>
    rw [putBlanks]
    split
    next hfull => rw [putAll_of_full hfull]
    next => rw [ih, List.replicate_succ]; rfl

theorem putBlanks_eq {b : UrlBuf} {n : ℕ} (h : 3 * n ≤ b.size) :
    b.putBlanks n = b.append (List.replicate n 32) := by
  rw [putBlanks_eq_putAll, putAll_eq]
  rwa [List.length_replicate]

end UrlBuf

/-! ### The field of an integer -/

namespace IntOut

theorem emit_eq {tmp : List UInt8} {b : UrlBuf} {w : ℤ} (hroom : 3 * tmp.length ≤ b.size)
    (hlo : -2 ^ 31 ≤ w - tmp.length) (hhi : w < 2 ^ 31) :
    emit tmp b w = (b.append tmp, w - tmp.length) := by
  induction tmp generalizing b w with
  | nil => simp [emit]
  | cons c tmp ih =>
    rw [List.length_cons] at hroom hlo
    push_cast at hlo
    have hdec : toInt (w - 1) = w - 1 := toInt_of_range (by omega) (by omega)
    have hroom' : 3 * tmp.length ≤ (b.append [c]).size := UrlBuf.room_append (by simp; omega)
    rw [emit, if_neg (by omega), UrlBuf.put_eq c (by omega), hdec,
      ih hroom' (by omega) (by omega), UrlBuf.append_append, List.singleton_append]
    congr 1
    push_cast [List.length_cons]
    omega

/-- What stands before the number in a field with `gap` places left. -/
def padding (k : Conv) (gap : ℕ) : List UInt8 :=
  if k.minus then [] else List.replicate gap (if k.zero then 48 else 32)

theorem padding_length (k : Conv) (gap : ℕ) : (padding k gap).length ≤ gap := by
  unfold padding
  split <;> simp

theorem pad_eq {k : Conv} {b : UrlBuf} {w : ℕ} {tmp : List UInt8} (hroom : 3 * w ≤ b.size) :
    pad k ⟨b, w, tmp⟩ = ⟨b.append (padding k (w - tmp.length)), w, tmp⟩ := by
  cases hm : k.minus with
  | true => simp [pad, padding, hm]
  | false =>
    have hgap : ((w : ℤ) - tmp.length).toNat = w - tmp.length := by omega
    rcases Nat.eq_zero_or_pos w with rfl | hw
    · simp [pad, padding]
    · have hput : b.putAll (List.replicate (w - tmp.length) (if k.zero then 48 else 32)) =
          b.append _ := UrlBuf.putAll_eq (by rw [List.length_replicate]; omega)
      simp [pad, padding, hm, hgap, hput, hw.ne']

/-- The padding goes before the number unless `-` is given, and the rest of the width behind it in
either case. -/
theorem finish_eq {k : Conv} {b : UrlBuf} {w : ℕ} {tmp : List UInt8} (hw : w < 2 ^ 31)
    (htmp : tmp.length ≤ 2 ^ 31) (hroom : 3 * (2 * w + tmp.length) ≤ b.size) :
    finish k ⟨b, w, tmp⟩ = b.append
      (padding k (w - tmp.length) ++ tmp ++ List.replicate (w - tmp.length) 32) := by
  have hlen := padding_length k (w - tmp.length)
  have hroom1 : 3 * (tmp.length + (w - tmp.length)) ≤
      (b.append (padding k (w - tmp.length))).size := UrlBuf.room_append (by omega)
  have hleft : ((w : ℤ) - tmp.length).toNat = w - tmp.length := by omega
  have hemit : emit tmp (b.append (padding k (w - tmp.length))) w = (_, _) :=
    emit_eq (by omega) (by omega) (by omega)
  rw [finish, pad_eq (by omega)]
  simp only [hemit, hleft]
  rw [UrlBuf.putBlanks_eq (UrlBuf.room_append hroom1), UrlBuf.append_append,
    UrlBuf.append_append, List.append_assoc]

/-- The characters before the digits, in place. -/
def placed (zero : Bool) (b : UrlBuf) (w : ℕ) (lead digits : List UInt8) : IntOut :=
  if zero ∧ w ≠ 0 then ⟨b.append lead, ((w - lead.length : ℕ) : ℤ), digits⟩
  else ⟨b, w, lead ++ digits⟩

@[simp] theorem placed_nil (zero : Bool) (b : UrlBuf) (w : ℕ) (digits : List UInt8) :
    placed zero b w [] digits = ⟨b, w, digits⟩ := by
  unfold placed
  split <;> simp

theorem push_eq (zero : Bool) (c : UInt8) {b : UrlBuf} {w : ℕ} (digits : List UInt8)
    (hw : w < 2 ^ 31) (hroom : 3 ≤ b.size) :
    push zero c ⟨b, w, digits⟩ = placed zero b w [c] digits := by
  unfold push placed
  by_cases h : zero ∧ w ≠ 0
  · have hdec : toInt ((w : ℤ) - 1) = ((w - 1 : ℕ) : ℤ) := by
      rw [toInt_of_range (by omega) (by omega)]
      omega
    simp [h, hdec, UrlBuf.put_eq c hroom]
  · have h' : ¬ (zero ∧ (w : ℤ) ≠ 0) := by exact_mod_cast h
    rw [if_neg h, if_neg h']
    rfl

theorem pushHex_eq (zero : Bool) (x : UInt8) {b : UrlBuf} {w : ℕ} (digits : List UInt8)
    (hroom : 6 ≤ b.size) :
    pushHex zero x ⟨b, w, digits⟩ = placed zero b w [48, x] digits := by
  have hroom1 : 3 * 1 ≤ (b.append [48]).size := UrlBuf.room_append (by simp; omega)
  have hput : (b.put 48).put x = b.append [48, x] := by
    rw [UrlBuf.put_eq 48 (by omega), UrlBuf.put_eq x (by omega), UrlBuf.append_append]
    rfl
  unfold pushHex placed
  by_cases h : zero ∧ w ≠ 0
  · have h' : zero ∧ (w : ℤ) ≠ 0 := by exact_mod_cast h
    have hdec : (if (w : ℤ) < 2 then 0 else (w : ℤ) - 2) = ((w - 2 : ℕ) : ℤ) := by
      split <;> omega
    rw [if_pos h, if_pos h']
    simp only [hdec, hput, List.length_cons, List.length_nil]
  · have h' : ¬ (zero ∧ (w : ℤ) ≠ 0) := by exact_mod_cast h
    rw [if_neg h, if_neg h']
    rfl

end IntOut

/-- The sign that is printed. -/
def signText (k : Conv) (hasneg negative : Bool) : List UInt8 :=
  if negative then [45]
  else if hasneg && k.plus then [43]
  else if hasneg && k.space then [32]
  else []

/-- The prefix that is printed, whatever the value. -/
def altText (k : Conv) (radix : Radix) : List UInt8 :=
  if k.alternate then altForm radix 1 else []

/-- The field that is printed. The blanks at its end are those of a field that is justified to the
left. -/
def fieldText (k : Conv) (w : ℕ) (lead digits : List UInt8) : List UInt8 :=
  justify k.minus k.zero w lead digits ++
    if k.minus then [] else List.replicate (w - (lead ++ digits).length) 32

theorem signText_length (k : Conv) (hasneg negative : Bool) :
    (signText k hasneg negative).length ≤ 1 := by
  unfold signText
  split_ifs <;> simp

theorem altText_length (k : Conv) (radix : Radix) : (altText k radix).length ≤ 2 := by
  unfold altText altForm
  split <;> [split <;> simp; simp]

namespace IntOut

variable {k : Conv} {b : UrlBuf} {w : ℕ}

theorem pushSign_eq (hasneg negative : Bool) (digits : List UInt8) (hw : w < 2 ^ 31)
    (hroom : 3 ≤ b.size) :
    pushSign k hasneg negative ⟨b, w, digits⟩ =
      placed k.zero b w (signText k hasneg negative) digits := by
  unfold pushSign signText
  split_ifs
  · exact push_eq k.zero 45 digits hw hroom
  · exact push_eq k.zero 43 digits hw hroom
  · exact push_eq k.zero 32 digits hw hroom
  · exact (placed_nil ..).symm

theorem pushAlt_eq (radix : Radix) (digits : List UInt8) (hw : w < 2 ^ 31) (hroom : 6 ≤ b.size) :
    pushAlt k radix ⟨b, w, digits⟩ = placed k.zero b w (altText k radix) digits := by
  unfold pushAlt altText
  split
  next =>
    match radix with
    | .octal => exact push_eq k.zero 48 digits hw (by omega)
    | .decimal => exact (placed_nil ..).symm
    | .hex false => exact pushHex_eq k.zero 120 digits hroom
    | .hex true => exact pushHex_eq k.zero 88 digits hroom
  next => exact (placed_nil ..).symm

theorem pushAlt_of_nil {radix : Radix} (h : altText k radix = []) (s : IntOut) :
    pushAlt k radix s = s := by
  unfold altText at h
  unfold pushAlt
  split
  next halt =>
    rw [if_pos halt] at h
    match radix with
    | .decimal => rfl
    | .octal => exact absurd h (by decide)
    | .hex upper => cases upper <;> exact absurd h (by decide)
  next => rfl

/-- No conversion has both a sign and a prefix. -/
theorem pushLead_eq {hasneg negative : Bool} {radix : Radix} (digits : List UInt8) (hw : w < 2 ^ 31)
    (hroom : 6 ≤ b.size) (hone : signText k hasneg negative = [] ∨ altText k radix = []) :
    pushAlt k radix (pushSign k hasneg negative ⟨b, w, digits⟩) =
      placed k.zero b w (signText k hasneg negative ++ altText k radix) digits := by
  rw [pushSign_eq hasneg negative digits hw (by omega)]
  rcases hone with hsign | halt
  · rw [hsign, placed_nil, List.nil_append, pushAlt_eq radix digits hw hroom]
  · rw [halt, List.append_nil, pushAlt_of_nil halt]

theorem finish_placed {lead digits : List UInt8} (hw : w < 2 ^ 31)
    (hlen : (lead ++ digits).length ≤ 2 ^ 31)
    (hroom : 3 * (2 * w + (lead ++ digits).length) ≤ b.size) :
    (placed k.zero b w lead digits).finish k = b.append (fieldText k w lead digits) := by
  unfold placed fieldText
  rw [List.length_append] at hlen hroom
  split
  next h =>
    have hgap : w - lead.length - digits.length = w - (lead ++ digits).length := by
      rw [List.length_append]; omega
    rw [finish_eq (by omega) (by omega) (UrlBuf.room_append (by omega)), UrlBuf.append_append, hgap]
    cases hm : k.minus <;> simp [justify, padding, hm, h.1]
  next h =>
    rw [finish_eq hw (by rw [List.length_append]; omega) (by rw [List.length_append]; omega)]
    cases hm : k.minus with
    | true => simp [justify, padding, hm]
    | false =>
      cases hz : k.zero with
      | false => simp [justify, padding, hm, hz]
      | true =>
        have hw0 : w = 0 := by simpa [hz] using h
        simp [justify, padding, hm, hz, hw0]

end IntOut

/-! ### Digits -/

theorem digitChar_eq (radix : Radix) {d : ℕ} (h : d < radix.base) :
    digitChar radix d = radix.digit d := by
  have hhex : ∀ upper, ∀ d < 16, digitChar (.hex upper) d = (Radix.hex upper).digit d := by
    decide +kernel
  match radix with
  | .octal | .decimal =>
    have h10 : d < 10 := by simp only [Radix.base] at h; omega
    simp [digitChar, Radix.digit, h10, Nat.add_comm]
  | .hex upper => exact hhex upper d h

theorem pushDigits_eq (radix : Radix) (n : ℕ) (tmp : List UInt8) :
    pushDigits radix n tmp = ((Nat.digits radix.base n).map radix.digit).reverse ++ tmp := by
  induction n using Nat.strong_induction_on generalizing tmp with
  | _ n ih =>
    have hb := radix.two_le_base
    rw [pushDigits]
    split
    next h0 => simp [h0]
    next h0 =>
      have hpos : 0 < n := Nat.pos_of_ne_zero h0
      rw [ih (n / radix.base) (Nat.div_lt_self hpos hb),
        digitChar_eq radix (Nat.mod_lt n (by omega)), Nat.digits_def' hb hpos]
      simp

theorem intDigits_natCast (radix : Radix) (n : ℕ) : intDigits radix n = numeral radix n := by
  unfold intDigits numeral
  simp [pushDigits_eq]

theorem intDigits_of_neg (radix : Radix) {v : ℤ} (h : v < 0) : intDigits radix v = [] := by
  rw [intDigits, if_neg h.ne, Int.toNat_of_nonpos h.le, pushDigits, if_pos rfl]

theorem intDigits_length (radix : Radix) {v : ℤ} (h : v < 2 ^ 64) :
    (intDigits radix v).length ≤ 64 := by
  rcases lt_or_ge v 0 with hneg | hpos
  · simp [intDigits_of_neg radix hneg]
  · obtain ⟨n, rfl⟩ := Int.eq_ofNat_of_zero_le hpos
    rw [intDigits_natCast]
    exact numeral_length_le radix (by decide) (by omega)

/-- The value whose digits are printed. -/
def intVal (type : CType) (v : ℤ) : ℤ :=
  if type.wrap v < 0 then type.wrap (-type.wrap v) else type.wrap v

theorem wrap_lt (type : CType) (v : ℤ) : type.wrap v < 2 ^ 64 := by
  have hint := (toInt_range v).2
  cases type with
  | int => simp only [CType.wrap]; omega
  | long | longLong => simp only [CType.wrap, toInt64]; split <;> omega
  | _ => simp only [CType.wrap, toSize]; omega

/-- **What an integer conversion appends.** -/
theorem outIntAlt_eq {type : CType} {hasneg : Bool} {radix : Radix} {k : Conv} {v : ℤ} {b : UrlBuf}
    {w : ℕ} (hk : k.width = w) (hw : w < 2 ^ 31)
    (hone : signText k hasneg (decide (type.wrap v < 0)) = [] ∨ altText k radix = [])
    (hroom : 3 * (2 * w + 66) ≤ b.size) :
    outIntAlt type hasneg radix k v b = b.append
      (fieldText k w (signText k hasneg (decide (type.wrap v < 0)) ++ altText k radix)
        (intDigits radix (intVal type v))) := by
  have hval : intVal type v < 2 ^ 64 := by
    unfold intVal
    split <;> exact wrap_lt ..
  have hdigits := intDigits_length radix hval
  have hsign := signText_length k hasneg (decide (type.wrap v < 0))
  have halt := altText_length k radix
  have hpush := IntOut.pushLead_eq (b := b) (intDigits radix (intVal type v)) hw (by omega) hone
  set lead := signText k hasneg (decide (type.wrap v < 0)) ++ altText k radix with hlead
  have hlen : (lead ++ intDigits radix (intVal type v)).length ≤ 66 := by
    rw [hlead, List.length_append, List.length_append]
    rcases hone with h | h <;> rw [h, List.length_nil] <;> omega
  calc outIntAlt type hasneg radix k v b
      = (IntOut.pushAlt k radix (IntOut.pushSign k hasneg (decide (type.wrap v < 0))
          ⟨b, w, intDigits radix (intVal type v)⟩)).finish k := by rw [← hk]; rfl
    _ = (IntOut.placed k.zero b w lead (intDigits radix (intVal type v))).finish k := by rw [hpush]
    _ = b.append (fieldText k w lead (intDigits radix (intVal type v))) :=
        IntOut.finish_placed hw (by omega) (by omega)

/-! ### Reading a conversion -/

section Reading

variable {k : Conv} (args : List UrlArg) (b : UrlBuf)

theorem urlLoop_more {args : List UrlArg} {b : UrlBuf} {k' : Conv} {c : UInt8}
    (h : k.step args b (.of c) = .ok (.more k' args)) (fmt : List UInt8) :
    urlLoop (c :: fmt) (some k) args b = urlLoop fmt (some k') args b := by
  rw [urlLoop, h]

def Conv.withFlags (k : Conv) (fs : List Flag) : Conv :=
  { k with
    minus := k.minus || decide (Flag.minus ∈ fs)
    plus := k.plus || decide (Flag.plus ∈ fs)
    space := k.space || decide (Flag.space ∈ fs)
    zero := k.zero || decide (Flag.zero ∈ fs)
    alternate := k.alternate || decide (Flag.alternate ∈ fs) }

/-- The case of a flag. -/
def flagChar : Flag → ConvChar
  | .minus => .minus
  | .plus => .plus
  | .space => .space
  | .zero => .digit 0
  | .alternate => .alternate

theorem step_flag (hk : k.state = .flags) (f : Flag) :
    k.step args b (.of f.char) = .ok (.more (k.withFlags [f]) args) := by
  have hof : ConvChar.of f.char = flagChar f := by cases f <;> rfl
  rw [hof]
  cases f <;> simp [flagChar, Conv.step, Conv.setFlag, Conv.addDigit, hk, Conv.withFlags]

theorem withFlags_cons (k : Conv) (f : Flag) (fs : List Flag) :
    (k.withFlags [f]).withFlags fs = k.withFlags (f :: fs) := by
  simp [Conv.withFlags, Bool.or_assoc]

theorem urlLoop_flags (fs : List Flag) (hk : k.state = .flags) (fmt : List UInt8) :
    urlLoop (fs.map Flag.char ++ fmt) (some k) args b =
      urlLoop fmt (some (k.withFlags fs)) args b := by
  induction fs generalizing k with
  | nil => simp [Conv.withFlags]
  | cons f fs ih =>
    rw [List.map_cons, List.cons_append, urlLoop_more (step_flag args b hk f),
      ih (show (k.withFlags [f]).state = .flags from hk), withFlags_cons]

theorem of_digit {d : ℕ} (h : d < 10) : ConvChar.of (Radix.decimal.digit d) = .digit d := by
  interval_cases d <;> rfl

/-- A width that is not zero does not begin with the flag `0`. -/
theorem urlLoop_width {w : ℕ} (hw : w ≠ 0) (hlt : w < 2 ^ 31) (hk : k.state = .flags)
    (h0 : k.width = 0) (fmt : List UInt8) :
    urlLoop (numeral .decimal w ++ fmt) (some k) args b =
      urlLoop fmt (some { k with width := w, state := .width }) args b := by
  induction w using Nat.strong_induction_on generalizing fmt with
  | _ w ih =>
    rcases lt_or_ge w 10 with h10 | h10
    · -- the first digit: in the state of flags a `0` would be the flag
      rw [numeral_of_lt_base .decimal h10, List.singleton_append]
      apply urlLoop_more
      rw [of_digit h10]
      simp [Conv.step, Conv.addDigit, hk, h0, hw, ConvState.code, toInt_nat hlt]
    · have hdiv : w / 10 ≠ 0 := by omega
      have hnum : numeral .decimal w =
          numeral .decimal (w / 10) ++ [Radix.decimal.digit (w % 10)] :=
        numeral_of_base_le .decimal h10
      have hval : toInt (((w / 10 : ℕ) : ℤ) * 10 + ((w % 10 : ℕ) : ℤ)) = w := by
        rw [toInt_of_range (by omega) (by omega)]
        omega
      rw [hnum, List.append_assoc, List.singleton_append, ih (w / 10) (by omega) hdiv (by omega)]
      apply urlLoop_more
      rw [of_digit (by omega)]
      simp only [Conv.step, Conv.addDigit, ConvState.code, hval]
      simp

/-- How the formatter keeps a length. -/
def convLength : Length → ConvLength
  | .none => .none
  | .h => .h
  | .l => .l
  | .ll => .L
  | .z => .z

theorem urlLoop_length (len : Length) (hk : k.length = .none) (fmt : List UInt8) :
    ∃ s, urlLoop (len.chars ++ fmt) (some k) args b =
      urlLoop fmt (some { k with length := convLength len, state := s }) args b := by
  match len with
  | .none => exact ⟨k.state, by rw [convLength, ← hk]; rfl⟩
  | .h | .l | .z =>
    refine ⟨.length, urlLoop_more ?_ fmt⟩
    simp [ConvChar.of, isDigit, Conv.step, Conv.setShort, Conv.setLong, Conv.setLength, hk,
      convLength]
  | .ll =>
    have hl : ∀ k : Conv, k.step args b (.of 108) = .ok (.more k.setLong args) := fun _ => rfl
    refine ⟨.length, ?_⟩
    rw [Length.chars, List.cons_append, urlLoop_more (hl k), List.singleton_append,
      urlLoop_more (hl _)]
    simp [Conv.setLong, hk, convLength]

/-- The variables of the inner loop at the end of a conversion. -/
def convOf (c : Conversion) (s : ConvState) : Conv where
  state := s
  alternate := c.has .alternate
  minus := c.has .minus
  plus := c.has .plus
  space := c.has .space
  zero := c.has .zero
  width := c.width
  length := convLength c.length

/-- **A conversion is read as it is written.** -/
theorem urlLoop_format (c : Conversion) (hb : b.size ≠ 0) :
    ∃ s, urlLoop c.format none args b = urlLoop [c.spec.char] (some (convOf c s)) args b := by
  rw [Conversion.format, urlLoop, if_neg hb, if_pos rfl, urlLoop_flags args b _ rfl]
  split
  next hw =>
    obtain ⟨s, hs⟩ := urlLoop_length (k := ({} : Conv).withFlags c.flags) args b c.length rfl
      [c.spec.char]
    refine ⟨s, ?_⟩
    rw [List.nil_append, hs]
    simp [Conv.withFlags, convOf, Conversion.has, hw]
  next hw =>
    have hwidth := urlLoop_width (k := ({} : Conv).withFlags c.flags) args b hw c.width_lt rfl rfl
    obtain ⟨s, hs⟩ := urlLoop_length
      (k := { ({} : Conv).withFlags c.flags with width := c.width, state := .width }) args b
      c.length rfl [c.spec.char]
    refine ⟨s, ?_⟩
    rw [hwidth, hs]
    simp [Conv.withFlags, convOf, Conversion.has]

end Reading

/-- The type of the argument that is read. -/
def argType (signed : Bool) : Length → CType
  | .none | .h => if signed then .int else .unsignedInt
  | .l => if signed then .long else .unsignedLong
  | .ll => if signed then .longLong else .unsignedLongLong
  | .z => .sizeT

theorem urlLoop_spec (c : Conversion) (s : ConvState) (v : ℤ) (b : UrlBuf) :
    urlLoop [c.spec.char] (some (convOf c s)) [.int v] b =
      .ok (outIntAlt (argType c.spec.signed c.length) c.spec.signed c.spec.radix (convOf c s) v
        b) := by
  have hof : ConvChar.of c.spec.char = .int c.spec.signed c.spec.radix := by cases c.spec <;> rfl
  have htype : (convOf c s).length.intType c.spec.signed =
      some (argType c.spec.signed c.length) := by
    change (convLength c.length).intType c.spec.signed = _
    cases c.length <;> rfl
  have hstep : (convOf c s).step [.int v] b (.of c.spec.char) = .ok (.ended (outIntAlt
      (argType c.spec.signed c.length) c.spec.signed c.spec.radix (convOf c s) v b) []) := by
    rw [hof, Conv.step, Conv.outInt, htype]
  rw [urlLoop, hstep]
  rfl

/-! ### The text of a conversion -/

/-- The text that the formatter makes of a conversion and its argument. -/
def urlText (c : Conversion) (v : ℤ) : List UInt8 :=
  let type := argType c.spec.signed c.length
  fieldText (convOf c .flags) c.width
    (signText (convOf c .flags) c.spec.signed (decide (type.wrap v < 0)) ++
      altText (convOf c .flags) c.spec.radix)
    (intDigits c.spec.radix (intVal type v))

theorem wrap_unsigned_nonneg (len : Length) (v : ℤ) : 0 ≤ (argType false len).wrap v := by
  cases len <;> simp only [argType, Bool.false_eq_true, if_false, CType.wrap, toSize] <;> omega

/-- A signed conversion has no prefix, any other no sign. -/
theorem sign_or_alt (c : Conversion) (v : ℤ) :
    signText (convOf c .flags) c.spec.signed
      (decide ((argType c.spec.signed c.length).wrap v < 0)) = [] ∨
    altText (convOf c .flags) c.spec.radix = [] := by
  cases hs : c.spec.signed with
  | true =>
    have hr : c.spec.radix = .decimal := Specifier.radix_of_signed hs
    right
    simp [hr, altText, altForm]
  | false =>
    have hpos := wrap_unsigned_nonneg c.length v
    left
    simp [signText, hpos]

/-- **With enough room, a conversion alone writes the encoding of its text.** -/
theorem urlVsnprintf_format (c : Conversion) (v : ℤ) {size : ℕ}
    (hsize : 3 * (2 * c.width + 66) < size) :
    ∃ r, urlVsnprintf size c.format [.int v] = .ok r ∧
      r.written = Percent.encode (urlText c v) := by
  obtain ⟨s, hs⟩ := urlLoop_format [.int v] ⟨[], size⟩ c (by simp only; omega)
  have hout : outIntAlt (argType c.spec.signed c.length) c.spec.signed c.spec.radix (convOf c s) v
      ⟨[], size⟩ = UrlBuf.append ⟨[], size⟩ (urlText c v) :=
    outIntAlt_eq rfl c.width_lt (sign_or_alt c v) hsize.le
  rw [urlLoop_spec, hout] at hs
  rw [urlVsnprintf, hs]
  exact ⟨_, rfl, rfl⟩

end Spigeon
