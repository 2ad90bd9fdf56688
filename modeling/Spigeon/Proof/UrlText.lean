import Spigeon.Proof.UrlPrintf
import Spigeon.Spec.UrlText

/-!
# The formatter puts the text of its format

Every loop of the formatter stops when the room is used up, and at no room `_put` does nothing. So a loop
that tests the room puts what one without the test would put, and the formatter puts the text of the
format, as far as the room lasts (`urlLoop_eq`). A fault is met only if there is room left when the
loops come to it.
-/

namespace Spigeon

open CInt Printf

/-! ### Integers -/

namespace IntText

/-- The variables with the characters put into a buffer. -/
def onto (b : UrlBuf) (t : IntText) : IntOut := ⟨b.putAll t.out, t.width, t.tmp⟩

variable (b : UrlBuf) (t : IntText)

theorem onto_push (zero : Bool) (c : UInt8) : (t.push zero c).onto b = (t.onto b).push zero c := by
  unfold push IntOut.push onto
  split
  next h => simp only [UrlBuf.putAll_append, UrlBuf.putAll_singleton]
  next h => rfl

theorem onto_pushSign (k : Conv) (hasneg negative : Bool) :
    (t.pushSign k hasneg negative).onto b = (t.onto b).pushSign k hasneg negative := by
  unfold pushSign IntOut.pushSign
  split_ifs <;> simp only [onto_push]

theorem onto_pushHex (zero : Bool) (x : UInt8) :
    (t.pushHex zero x).onto b = (t.onto b).pushHex zero x := by
  unfold pushHex IntOut.pushHex onto
  split
  next h =>
    simp only [UrlBuf.putAll_append]
    rfl
  next h => rfl

theorem onto_pushAlt (k : Conv) (radix : Radix) :
    (t.pushAlt k radix).onto b = (t.onto b).pushAlt k radix := by
  unfold pushAlt IntOut.pushAlt
  split
  next =>
    cases radix with
    | octal => exact onto_push b t k.zero 48
    | decimal => rfl
    | hex upper => exact onto_pushHex b t k.zero _
  next => rfl

/-- The number and the blanks behind it. Where the room ends within the number, `width` is not what it
would be, but no blank is put either. -/
theorem emit_blanks (tmp : List UInt8) (b : UrlBuf) (w : ℤ) :
    (IntOut.emit tmp b w).1.putBlanks (IntOut.emit tmp b w).2.toNat =
      b.putAll (tmp ++ List.replicate (widthLeft tmp w).toNat 32) := by
  induction tmp generalizing b w with
  | nil => exact UrlBuf.putBlanks_eq_putAll _ _
  | cons c tmp ih =>
    rw [IntOut.emit]
    split
    next hfull => rw [UrlBuf.putBlanks_eq_putAll, UrlBuf.putAll_of_full hfull, UrlBuf.putAll_of_full hfull]
    next => rw [ih]; rfl

theorem onto_finish (k : Conv) : (t.onto b).finish k = b.putAll (t.finish k) := by
  have hpad : (t.onto b).pad k = ⟨(b.putAll t.out).putAll (t.pad k), t.width, t.tmp⟩ := by
    unfold IntOut.pad pad
    change (if !k.minus ∧ t.width ≠ 0 then _ else _) = _
    split <;> rfl
  have hfinish := emit_blanks t.tmp ((b.putAll t.out).putAll (t.pad k)) t.width
  rw [← UrlBuf.putAll_append, ← UrlBuf.putAll_append] at hfinish
  rw [IntOut.finish, hpad, finish, List.append_assoc]
  rw [← UrlBuf.putAll_append]
  exact hfinish

end IntText

theorem outIntAlt_putAll (type : CType) (hasneg : Bool) (radix : Radix) (k : Conv) (v : ℤ)
    (b : UrlBuf) : outIntAlt type hasneg radix k v b = b.putAll (intText type hasneg radix k v) := by
  unfold outIntAlt intText
  dsimp only
  rw [← IntText.onto_finish, IntText.onto_pushAlt, IntText.onto_pushSign]
  rfl

/-! ### Strings -/

theorem copyString_fst (val : List UInt8) (b : UrlBuf) (n : ℕ) :
    (copyString val b n).1 = b.putAll val := by
  induction val generalizing b n with
  | nil => rfl
  | cons c val ih =>
    rw [copyString]
    split
    next hfull => rw [UrlBuf.putAll_of_full hfull]
    next => rw [ih]; rfl

theorem copyPrecision_fst (val : List UInt8) (p : ℤ) (b : UrlBuf) (n : ℕ) :
    (copyPrecision val p b n).1 = b.putAll (takePrecision val p) := by
  induction val generalizing p b n with
  | nil => rfl
  | cons c val ih =>
    rw [copyPrecision, takePrecision]
    by_cases hfull : b.size = 0
    · rw [if_pos (Or.inl hfull), UrlBuf.putAll_of_full hfull]
    · by_cases hp : p = 0
      · rw [if_pos (Or.inr hp), if_pos hp]
        rfl
      · rw [if_neg (by tauto), if_neg hp, ih]
        rfl

/-- The count is right unless the room has ended. -/
theorem copyString_snd (val : List UInt8) (b : UrlBuf) (n : ℕ) :
    (copyString val b n).1.size = 0 ∨ (copyString val b n).2 = n + val.length := by
  induction val generalizing b n with
  | nil => exact Or.inr rfl
  | cons c val ih =>
    rw [copyString]
    split
    next hfull => exact Or.inl hfull
    next =>
      refine (ih (b.put c) (n + 1)).imp_right fun h => ?_
      rw [h, List.length_cons]
      omega

theorem copyPrecision_snd (val : List UInt8) (p : ℤ) (b : UrlBuf) (n : ℕ) :
    (copyPrecision val p b n).1.size = 0 ∨
      (copyPrecision val p b n).2 = n + (takePrecision val p).length := by
  induction val generalizing p b n with
  | nil => exact Or.inr rfl
  | cons c val ih =>
    rw [copyPrecision, takePrecision]
    by_cases hfull : b.size = 0
    · rw [if_pos (Or.inl hfull)]
      exact Or.inl hfull
    · by_cases hp : p = 0
      · rw [if_pos (Or.inr hp), if_pos hp]
        exact Or.inr rfl
      · rw [if_neg (by tauto), if_neg hp]
        refine (ih (toInt (p - 1)) (b.put c) (n + 1)).imp_right fun h => ?_
        rw [h, List.length_cons]
        omega

theorem printAsIs_fst (k : Conv) (val : List UInt8) (b : UrlBuf) :
    (printAsIs k val b).1 = b.putAll (textAsIs k val) := by
  unfold printAsIs textAsIs
  split
  · exact copyPrecision_fst val k.precision b 0
  · exact copyString_fst val b 0

theorem printAsIs_snd (k : Conv) (val : List UInt8) (b : UrlBuf) :
    (printAsIs k val b).1.size = 0 ∨ (printAsIs k val b).2 = (textAsIs k val).length := by
  unfold printAsIs textAsIs
  split
  · simpa using copyPrecision_snd val k.precision b 0
  · simpa using copyString_snd val b 0

theorem outString_putAll (k : Conv) (val : List UInt8) (b : UrlBuf) :
    outString k val b = b.putAll (stringText k val) := by
  unfold outString stringText
  split
  next hw =>
    extract_lets measured len
    split
    next => rw [UrlBuf.putAll_append]
    next => exact printAsIs_fst k val b
  next hw =>
    dsimp only
    rw [UrlBuf.putAll_append, ← printAsIs_fst]
    split
    next =>
      -- the blanks are counted from what was copied, which is all unless the room has ended
      rcases printAsIs_snd k val b with hfull | hlen
      · rw [UrlBuf.putAll_of_full hfull, UrlBuf.putAll_of_full hfull]
      · rw [hlen]
    next => rfl

/-! ### The loops -/

section Loops

variable (k : Conv) (args : List UrlArg) (b : UrlBuf)

/-- A character that ends a conversion puts its text, and any other one puts nothing. -/
theorem step_eq (c : ConvChar) :
    k.step args b c =
      match k.text args c with
      | some r => r.map fun p => .ended (b.putAll p.1) p.2
      | none => (k.next args c).map fun p => .more p.1 p.2 := by
  cases c with
  | char => rcases args with _ | ⟨_ | _ | _, args⟩ <;> rfl
  | int hasneg radix =>
    simp only [Conv.step, Conv.text, Conv.outInt]
    cases k.length.intType hasneg with
    | none => rfl
    | some type => rcases args with _ | ⟨_ | _ | _, args⟩ <;> simp only [outIntAlt_putAll] <;> rfl
  | pointer =>
    simp only [Conv.step, Conv.text]
    rcases args with _ | ⟨_ | _ | _, args⟩ <;> simp only [outIntAlt_putAll] <;> rfl
  | double c => rcases args with _ | ⟨_ | _ | _, args⟩ <;> rfl
  | string =>
    simp only [Conv.step, Conv.text]
    rcases args with _ | ⟨_ | _ | _, args⟩ <;> simp only [outString_putAll] <;> rfl
  | star =>
    simp only [Conv.step, Conv.text, Conv.readStar, Conv.next]
    split
    next => rcases args with _ | ⟨_ | _ | _, args⟩ <;> [rfl; (dsimp only; split <;> rfl); rfl; rfl]
    next => rfl
  | _ => rfl

end Loops

/-- What a buffer takes of a text. A fault at its end is met if room is left. -/
def FaultyText.onto (b : UrlBuf) (t : FaultyText) : Except UrlFault UrlBuf :=
  match t.fault with
  | none => .ok (b.putAll t.text)
  | some e => if (b.putAll t.text).size = 0 then .ok (b.putAll t.text) else .error e

theorem FaultyText.onto_after (b : UrlBuf) (cs : List UInt8) (t : FaultyText) :
    (t.after cs).onto b = t.onto (b.putAll cs) := by
  unfold onto after
  simp only [UrlBuf.putAll_append]

theorem FaultyText.onto_of_full {b : UrlBuf} (h : b.size = 0) (t : FaultyText) : t.onto b = .ok b := by
  unfold onto
  rw [UrlBuf.putAll_of_full h]
  cases t.fault with
  | none => rfl
  | some e => exact if_pos h

/-- **The formatter puts the text of its format, as far as the room lasts.** The inner loop is entered
only with room left. -/
theorem urlLoop_eq (fmt : List UInt8) (mode : Option Conv) (args : List UrlArg) (b : UrlBuf)
    (hmode : mode = none ∨ b.size ≠ 0) :
    urlLoop fmt mode args b = (textFrom fmt mode args).onto b := by
  induction fmt generalizing mode args b with
  | nil =>
    cases mode with
    | none => rfl
    | some k =>
      have hroom : b.size ≠ 0 := hmode.resolve_left (by simp)
      rw [urlLoop, textFrom, FaultyText.onto]
      exact (if_neg hroom).symm
  | cons c fmt ih =>
    cases mode with
    | none =>
      rw [urlLoop, textFrom]
      by_cases hfull : b.size = 0
      · rw [if_pos hfull, FaultyText.onto_of_full hfull]
      · rw [if_neg hfull]
        split
        next => exact ih _ _ _ (Or.inr hfull)
        next => rw [FaultyText.onto_after, UrlBuf.putAll_singleton, ih _ _ _ (Or.inl rfl)]
    | some k =>
      have hroom : b.size ≠ 0 := hmode.resolve_left (by simp)
      -- inside of a directive there is room, so that a fault is not cut off
      have hfault : ∀ e, FaultyText.onto b ⟨[], some e⟩ = .error e := fun e => if_neg hroom
      rw [urlLoop, textFrom, step_eq]
      cases htext : k.text args (.of c) with
      | some r =>
        cases r with
        | error e => exact (hfault e).symm
        | ok p =>
          dsimp only [Except.map]
          rw [FaultyText.onto_after, ih _ _ _ (Or.inl rfl)]
      | none =>
        cases hnext : k.next args (.of c) with
        | error e => exact (hfault e).symm
        | ok p => exact ih _ _ _ (Or.inr hroom)

theorem urlVsnprintf_eq (size : ℕ) (fmt : List UInt8) (args : List UrlArg) :
    urlVsnprintf size fmt args = ((formatText fmt args).onto ⟨[], size⟩).map fun b =>
      ⟨b.written, b.written.length, toInt b.written.length⟩ := by
  rw [urlVsnprintf, urlLoop_eq fmt none args ⟨[], size⟩ (Or.inl rfl)]
  rfl

end Spigeon
