import Spigeon.Proof.UrlPrintf

/-!
# Integers in encoded text, and in the text of `printf`

The text that the formatter makes of an integer conversion (`urlText`) is compared with that of
`printf`. They differ in the sign and the digits for an argument that cannot be negated, in the
prefix for a zero in the alternate form, and in the blanks at the end for a field that is justified
to the right and has room left (`urlText_eq_text_iff`).
-/

namespace Spigeon

open CInt CStr Printf

/-- The formatter negates the argument in the type that it has read: the type has a sign, and the
argument is not its minimum. A `short` is read as an `int`. -/
def Negates (c : Conversion) (v : ℤ) : Prop :=
  c.spec.signed → v < 0 → c.length ≠ .z ∧ (c.length ≠ .h → v ≠ -2 ^ (c.length.bits - 1))

/-- A zero in the alternate form of a conversion that has one. -/
def AltZero (c : Conversion) (v : ℤ) : Prop :=
  c.has .alternate = true ∧ v = 0 ∧ c.spec.radix ≠ .decimal

instance (c : Conversion) (v : ℤ) : Decidable (AltZero c v) :=
  inferInstanceAs (Decidable (_ ∧ _ ∧ _))

/-- The conversions and arguments for which the text is that of `printf`. -/
structure PrintsRight (c : Conversion) (v : ℤ) : Prop where
  negates : Negates c v
  field : if AltZero c v then
      c.spec.radix = .octal ∧ c.has .zero = true ∧ c.has .minus = false ∧ c.width = 2
    else c.has .minus = true ∨ c.width ≤ (c.unpadded v).length

section Fields

variable {w : ℕ} {lead digits : List UInt8}

theorem mem_fieldText {k : Conv} {x : UInt8} (h : x ∈ fieldText k w lead digits) :
    x ∈ lead ++ digits ∨ x = 32 ∨ x = 48 := by
  unfold fieldText at h
  rw [List.mem_append] at h
  rcases h with h | h
  · exact mem_justify h
  · split at h
    · exact absurd h List.not_mem_nil
    · exact .inr (.inl (List.mem_replicate.1 h).2)

/-- Only a field that is justified to the left, or filled, has no blanks too many. -/
theorem fieldText_eq_justify_iff {k : Conv} :
    fieldText k w lead digits = justify k.minus k.zero w lead digits ↔
      k.minus = true ∨ w ≤ (lead ++ digits).length := by
  rw [fieldText, List.append_right_eq_self]
  cases k.minus <;> simp [Nat.sub_eq_zero_iff_le]

end Fields

/-! ### Values -/

theorem wrap_unsigned (len : Length) {v : ℤ} (h0 : 0 ≤ v) (h : v < 2 ^ len.bits) :
    (argType false len).wrap v = v := by
  cases len with
  | none => exact Int.emod_eq_of_lt h0 h
  | h => exact Int.emod_eq_of_lt h0 (h.trans (by decide))
  | _ => exact (congrArg _ (toSize_of_range h0 h)).trans (Int.toNat_of_nonneg h0)

theorem wrap_signed {len : Length} {v : ℤ} (hz : len ≠ .z) (hlo : -2 ^ (len.bits - 1) ≤ v)
    (hhi : v < 2 ^ (len.bits - 1)) : (argType true len).wrap v = v := by
  cases len with
  | none => exact toInt_of_range hlo hhi
  | h =>
    have hbits : (-2 ^ 31 : ℤ) ≤ -2 ^ 15 := by decide
    exact toInt_of_range (hbits.trans hlo) (hhi.trans (by decide))
  | l | ll => exact toInt64_of_range hlo hhi
  | z => exact absurd rfl hz

theorem wrap_neg {len : Length} {v : ℤ} (hz : len ≠ .z) (hlo : -2 ^ (len.bits - 1) ≤ v)
    (hneg : v < 0) (hmin : len ≠ .h → v ≠ -2 ^ (len.bits - 1)) :
    (argType true len).wrap (-v) = -v := by
  cases len with
  | h =>
    change -2 ^ 15 ≤ v at hlo
    exact toInt_of_range (by omega) (by omega)
  | z => exact absurd rfl hz
  | _ =>
    have hne := hmin (by decide)
    apply wrap_signed (by decide) <;> simp only [Length.bits] at hlo hne ⊢ <;> omega

variable {c : Conversion} {v : ℤ}

/-- An argument that is negated exactly keeps its sign and its absolute value. -/
theorem Negates.value (hn : Negates c v) (hv : c.InRange v) :
    decide ((argType c.spec.signed c.length).wrap v < 0) = decide (v < 0) ∧
      intVal (argType c.spec.signed c.length) v = v.natAbs := by
  unfold Conversion.InRange at hv
  cases hs : c.spec.signed with
  | false =>
    rw [hs, if_neg (by decide)] at hv
    have hwrap := wrap_unsigned c.length hv.1 hv.2
    rw [intVal, hwrap, if_neg (by omega)]
    exact ⟨rfl, by omega⟩
  | true =>
    rw [hs, if_pos rfl] at hv
    rcases lt_or_ge v 0 with hneg | hpos
    · obtain ⟨hz, hmin⟩ := hn hs hneg
      have hwrap := wrap_signed hz hv.1 hv.2
      rw [intVal, hwrap, if_pos hneg, wrap_neg hz hv.1 hneg hmin]
      exact ⟨rfl, by omega⟩
    · -- with `z` the argument is read as unsigned, which changes no positive value
      have hwrap : (argType true c.length).wrap v = v := by
        by_cases hz : c.length = .z
        · rw [hz] at hv ⊢
          exact wrap_unsigned .z hpos (hv.2.trans (by decide))
        · exact wrap_signed hz hv.1 hv.2
      rw [intVal, hwrap, if_neg (by omega)]
      exact ⟨rfl, by omega⟩

theorem minus_not_mem_lead (k : Conv) (hasneg : Bool) :
    45 ∉ signText k hasneg false ++ altText k .decimal := by
  unfold signText altText altForm
  cases hasneg <;> cases k.plus <;> cases k.space <;> cases k.alternate <;> decide

/-- An argument of `%zd` is read without its sign. -/
theorem urlText_ne_of_sizeT (hs : c.spec.signed = true) (hneg : v < 0) (hz : c.length = .z) :
    urlText c v ≠ c.text v := by
  have hminus : 45 ∈ c.text v :=
    mem_justify_of_mem (by simp [Conversion.lead, hs, hneg])
  have hnonneg : 0 ≤ (argType true .z).wrap v := Int.natCast_nonneg _
  obtain ⟨n, hn⟩ := Int.eq_ofNat_of_zero_le hnonneg
  have hval : intVal (argType true .z) v = n := by
    rw [intVal, if_neg (by omega), hn]
  have hsign : decide ((argType true .z).wrap v < 0) = false := decide_eq_false (by omega)
  intro heq
  rw [← heq] at hminus
  rcases mem_fieldText hminus with h | h | h
  · rw [hs, hz, Specifier.radix_of_signed hs, hval, hsign, intDigits_natCast, List.mem_append] at h
    exact h.elim (minus_not_mem_lead _ _) (minus_not_mem_numeral n)
  · exact absurd h (by decide)
  · exact absurd h (by decide)

/-- The minimum of a signed type has no digits. -/
theorem urlText_ne_of_min (hs : c.spec.signed = true) (hz : c.length ≠ .z) (hh : c.length ≠ .h)
    (hmin : v = -2 ^ (c.length.bits - 1)) : urlText c v ≠ c.text v := by
  have hfacts : intVal (argType true c.length) v < 0 ∧ (argType true c.length).wrap v < 0 ∧
      50 ∈ numeral .decimal v.natAbs := by
    subst hmin
    cases hl : c.length with
    | h => exact absurd hl hh
    | z => exact absurd hl hz
    | _ => decide +kernel
  obtain ⟨hval, hwrap, htwo⟩ := hfacts
  have hmem : 50 ∈ c.text v :=
    mem_justify_of_mem (List.mem_append_right _ (by rwa [Specifier.radix_of_signed hs]))
  intro heq
  rw [← heq] at hmem
  rcases mem_fieldText hmem with h | h | h
  · rw [hs, Specifier.radix_of_signed hs, intDigits_of_neg _ hval, decide_eq_true hwrap] at h
    have hlead : signText (convOf c .flags) true true ++
        altText (convOf c .flags) .decimal = [45] := by
      simp [signText, altText, altForm]
    rw [hlead] at h
    exact absurd h (by decide)
  · exact absurd h (by decide)
  · exact absurd h (by decide)

/-! ### The alternate form of zero -/

theorem AltZero.not_signed (h : AltZero c v) : c.spec.signed = false := by
  by_contra hs
  exact h.2.2 (Specifier.radix_of_signed (by simpa using hs))

theorem AltZero.text_eq (h : AltZero c v) :
    c.text v = justify (c.has .minus) (c.has .zero) c.width [] [48] := by
  have hs := h.not_signed
  obtain ⟨-, rfl, -⟩ := h
  simp [Conversion.text, Conversion.lead, hs, altForm, numeral]

theorem AltZero.urlText_eq (h : AltZero c v) (hn : Negates c v) (hv : c.InRange v) :
    urlText c v = fieldText (convOf c .flags) c.width (altForm c.spec.radix 1) [48] := by
  have hs := h.not_signed
  obtain ⟨hsign, hval⟩ := hn.value hv
  obtain ⟨halt, rfl, -⟩ := h
  have hdigits : intDigits c.spec.radix (intVal (argType c.spec.signed c.length) 0) = [48] := by
    rw [hval, intDigits_natCast]; rfl
  have hlead : signText (convOf c .flags) c.spec.signed
        (decide ((argType c.spec.signed c.length).wrap 0 < 0)) ++
      altText (convOf c .flags) c.spec.radix = altForm c.spec.radix 1 := by
    rw [hsign, hs]
    simp [signText, altText, convOf, halt]
  rw [urlText]
  simp only [hdigits, hlead]

theorem octal_zero_iff (k : Conv) (w : ℕ) :
    fieldText k w [48] [48] = justify k.minus k.zero w [] [48] ↔
      k.zero = true ∧ k.minus = false ∧ w = 2 := by
  constructor
  · intro h
    have hzeros := congrArg (List.count 48) h
    have hblanks := congrArg (List.count 32) h
    rw [fieldText, List.count_append, count_justify, count_justify] at hzeros hblanks
    by_cases hpad : (!k.minus && k.zero) = true
    · -- the zeros are as many if the second one is padding, the blanks if none is left
      obtain ⟨hm, hz⟩ : k.minus = false ∧ k.zero = true := by simpa using hpad
      simp [hm, hz, List.count_replicate] at hzeros hblanks
      exact ⟨hz, hm, by omega⟩
    · -- one zero too many
      rw [if_neg hpad] at hzeros
      have hnone : (if k.minus then [] else List.replicate (w - ([48] ++ [48] : List UInt8).length)
          (32 : UInt8)).count 48 = 0 := by
        split <;> simp [List.count_replicate]
      rw [hnone] at hzeros
      simp at hzeros
  · rintro ⟨hz, hm, rfl⟩
    simp [fieldText, justify, hm, hz]

theorem hex_zero_ne (k : Conv) (w : ℕ) (upper : Bool) :
    fieldText k w (altForm (.hex upper) 1) [48] ≠ justify k.minus k.zero w [] [48] := by
  intro h
  have hmem : (if upper then 88 else 120) ∈ justify k.minus k.zero w [] [48] := by
    rw [← h]
    apply List.mem_append_left
    apply mem_justify_of_mem
    cases upper <;> decide
  rcases mem_justify hmem with hx | hx | hx <;> cases upper <;> exact absurd hx (by decide)

theorem altZero_text_iff (hn : Negates c v) (hv : c.InRange v) (h : AltZero c v) :
    urlText c v = c.text v ↔
      c.spec.radix = .octal ∧ c.has .zero = true ∧ c.has .minus = false ∧ c.width = 2 := by
  rw [h.urlText_eq hn hv, h.text_eq]
  cases hr : c.spec.radix with
  | decimal => exact absurd hr h.2.2
  | octal =>
    exact (octal_zero_iff (convOf c .flags) c.width).trans ⟨fun h => ⟨rfl, h⟩, fun h => h.2⟩
  | hex upper => exact iff_of_false (hex_zero_ne (convOf c .flags) c.width upper) (by simp)

/-! ### Every other argument -/

theorem lead_eq (hn : Negates c v) (hv : c.InRange v) (h : ¬ AltZero c v) :
    signText (convOf c .flags) c.spec.signed
        (decide ((argType c.spec.signed c.length).wrap v < 0)) ++
      altText (convOf c .flags) c.spec.radix = c.lead v := by
  have hsign : signText (convOf c .flags) c.spec.signed (decide (v < 0)) =
      if c.spec.signed then
        if v < 0 then [45] else if c.has .plus then [43] else if c.has .space then [32] else []
      else [] := by
    cases hs : c.spec.signed with
    | true => simp [signText, convOf]
    | false =>
      have hpos : 0 ≤ v := by
        rw [Conversion.InRange, hs] at hv
        exact hv.1
      simp [signText, hpos]
  have halt : altText (convOf c .flags) c.spec.radix =
      if c.has .alternate then altForm c.spec.radix v.natAbs else [] := by
    unfold altText
    change (if c.has .alternate then _ else _) = _
    split
    next ha =>
      refine (altForm_eq fun h0 => ?_).symm
      by_contra hr
      exact h ⟨ha, Int.natAbs_eq_zero.1 h0, hr⟩
    next => rfl
  rw [(hn.value hv).1, hsign, halt, Conversion.lead]

theorem text_iff (hn : Negates c v) (hv : c.InRange v) (h : ¬ AltZero c v) :
    urlText c v = c.text v ↔ c.has .minus = true ∨ c.width ≤ (c.unpadded v).length := by
  have hdigits : intDigits c.spec.radix (intVal (argType c.spec.signed c.length) v) =
      numeral c.spec.radix v.natAbs := by
    rw [(hn.value hv).2, intDigits_natCast]
  have htext : urlText c v =
      fieldText (convOf c .flags) c.width (c.lead v) (numeral c.spec.radix v.natAbs) := by
    rw [urlText]
    simp only [lead_eq hn hv h, hdigits]
  rw [htext]
  exact fieldText_eq_justify_iff

theorem urlText_eq_text_iff (hv : c.InRange v) : urlText c v = c.text v ↔ PrintsRight c v := by
  by_cases hn : Negates c v
  · by_cases h : AltZero c v
    · rw [altZero_text_iff hn hv h]
      exact ⟨fun hf => ⟨hn, by rwa [if_pos h]⟩, fun hr => by simpa [h] using hr.field⟩
    · rw [text_iff hn hv h]
      exact ⟨fun hf => ⟨hn, by rwa [if_neg h]⟩, fun hr => by simpa [h] using hr.field⟩
  · have hne : urlText c v ≠ c.text v := by
      simp only [Negates, not_forall, not_and_or, not_not] at hn
      obtain ⟨hs, hneg, hz | ⟨hh, hmin⟩⟩ := hn
      · exact urlText_ne_of_sizeT hs hneg hz
      · by_cases hz : c.length = .z
        · exact urlText_ne_of_sizeT hs hneg hz
        · exact urlText_ne_of_min hs hz hh hmin
    exact ⟨fun heq => absurd heq hne, fun hr => absurd hr.negates hn⟩

/-- **The integer conversions are those of `printf` where `PrintsRight` says so, and nowhere
else.** -/
theorem int_conversion_iff (c : Conversion) (v : ℤ) (hv : c.InRange v) (size : ℕ)
    (hsize : 3 * (2 * c.width + 66) < size) :
    (∃ r, urlVsnprintf size c.format [.int v] = .ok r ∧
      Percent.decode r.written = some (c.text v)) ↔ PrintsRight c v := by
  obtain ⟨r, hr, hwritten⟩ := urlVsnprintf_format c v hsize
  have hdecode : Percent.decode r.written = some (urlText c v) := by
    rw [hwritten, Percent.decode_encode]
  rw [← urlText_eq_text_iff hv]
  constructor
  · rintro ⟨r', hr', htext⟩
    obtain rfl : r = r' := Except.ok.inj (hr.symm.trans hr')
    exact Option.some.inj (hdecode.symm.trans htext)
  · intro heq
    exact ⟨r, hr, by rw [hdecode, heq]⟩

/-- A long in a field that is justified to the left. -/
theorem left_justified_long :
    ∃ r, urlVsnprintf 1000 (bytes "%-+6ld") [.int (-42)] = .ok r ∧
      Percent.decode r.written = some (bytes "-42   ") := by
  have h := (int_conversion_iff ⟨[.minus, .plus], 6, .l, .d, by decide⟩ (-42) (by decide +kernel) 1000
    (by decide)).2 ⟨fun _ _ => by decide +kernel, .inl rfl⟩
  have hformat : Conversion.format ⟨[.minus, .plus], 6, .l, .d, by decide⟩ = bytes "%-+6ld" := by
    decide +kernel
  have htext : Conversion.text ⟨[.minus, .plus], 6, .l, .d, by decide⟩ (-42) = bytes "-42   " := by
    decide +kernel
  rwa [hformat, htext] at h

/-- A field that is justified to the right is padded on both sides, and the minimum of `int` is a
lone sign. -/
theorem padded_twice_and_minimum :
    ((urlVsnprintf 1000 (bytes "%5d") [.int 42]).toOption.bind fun r => Percent.decode r.written) =
        some (bytes "   42   ") ∧
      (⟨[], 5, .none, .d, by decide⟩ : Conversion).text 42 = bytes "   42" ∧
      ((urlVsnprintf 1000 (bytes "%d") [.int (-2 ^ 31)]).toOption.bind fun r =>
        Percent.decode r.written) = some (bytes "-") ∧
      (⟨[], 0, .none, .d, by decide⟩ : Conversion).text (-2 ^ 31) = bytes "-2147483648" := by
  decide +kernel

end Spigeon
