import Spigeon.Proof.UrlText

/-!
# The ends of the buffer and of the format

What a buffer takes of a text is the beginning of its encoding (`UrlBuf.putAll_cut`): all bytes that
fit, where the first digit of an escape that is cut behind it may be wrong.

* `stays_inside_iff`: a call stays inside the buffer and the format exactly if the format ends outside of
  a conversion and the buffer is longer than the whole output.
* `truncates_iff`: of two outputs the shorter one is a prefix unless it ends with such a digit.
-/

namespace Spigeon

open CInt CStr Printf Percent

/-! ### Text that is cut -/

/-- What is written of a byte whose encoding does not fit. -/
def cutByte (n : ℕ) (c : UInt8) : List UInt8 :=
  match n with
  | 0 => []
  | 1 => [37]
  | _ => [(37 : UInt8), (48 : UInt8) + (c >>> 4)]

/-- What of a text is written into `n` bytes. -/
def cutText : ℕ → List UInt8 → List UInt8
  | _, [] => []
  | n, c :: cs =>
    if (encodeByte c).length ≤ n then encodeByte c ++ cutText (n - (encodeByte c).length) cs
    else cutByte n c

theorem encodeByte_length_cases (c : UInt8) :
    (unreserved c = true ∧ (encodeByte c).length = 1) ∨
      (unreserved c = false ∧ (encodeByte c).length = 3) := by
  unfold encodeByte
  cases unreserved c <;> simp

theorem encodeByte_of_length {c : UInt8} (h : (encodeByte c).length = 3) :
    encodeByte c = [37, hexDigit (c >>> 4), hexDigit (c &&& 15)] := by
  unfold encodeByte at h ⊢
  split at h
  next => simp at h
  next hc => rw [if_neg hc]

theorem cutByte_length {n : ℕ} {c : UInt8} (h : n < (encodeByte c).length) :
    (cutByte n c).length = n := by
  have hle := encodeByte_length_le c
  match n with
  | 0 => rfl
  | 1 => rfl
  | 2 => rfl
  | n + 3 => omega

theorem cutText_length (n : ℕ) (cs : List UInt8) :
    (cutText n cs).length = min n (encode cs).length := by
  induction cs generalizing n with
  | nil => simp [cutText, encode]
  | cons c cs ih =>
    rw [cutText, encode_cons, List.length_append]
    split
    next hfits =>
      rw [List.length_append, ih]
      omega
    next hcut =>
      rw [cutByte_length (by omega)]
      omega

namespace UrlBuf

theorem put_cut (b : UrlBuf) (c : UInt8) :
    b.put c = if (encodeByte c).length ≤ b.size then b.append [c]
      else ⟨b.written ++ cutByte b.size c, 0⟩ := by
  obtain ⟨written, size⟩ := b
  rcases encodeByte_length_cases c with ⟨hc, hlen⟩ | ⟨hc, hlen⟩
  · rcases size with _ | n
    · simp [put, hc, hlen, cutByte]
    · simp [put, hc, append, encode_singleton, encodeByte]
  · rcases size with _ | _ | _ | n
    · simp [put, hc, hlen, cutByte]
    · simp [put, hc, hlen, cutByte]
    · simp [put, hc, hlen, cutByte]
    · simp [put, hc, append, encode_singleton, encodeByte]

/-- **What a buffer takes of a text.** -/
theorem putAll_cut (b : UrlBuf) (cs : List UInt8) :
    b.putAll cs = ⟨b.written ++ cutText b.size cs, b.size - (encode cs).length⟩ := by
  induction cs generalizing b with
  | nil => simp [putAll, cutText, encode]
  | cons c cs ih =>
    have hstep : b.putAll (c :: cs) = (b.put c).putAll cs := rfl
    rw [hstep, put_cut, cutText, encode_cons, List.length_append]
    split
    next hfits =>
      rw [ih]
      simp only [append, encode_singleton, List.append_assoc, Nat.sub_add_eq]
    next hcut =>
      rw [putAll_of_full rfl]
      congr 1
      omega

end UrlBuf

/-! ### A wrong digit -/

/-- The text is cut behind the first digit of an escape, and the digit is a letter. -/
def CutsLetter (n : ℕ) (cs : List UInt8) : Prop :=
  ∃ front c rest, cs = front ++ c :: rest ∧ (encode front).length + 2 = n ∧
    unreserved c = false ∧ 160 ≤ c

theorem cutByte_eq_take_iff {n : ℕ} {c : UInt8} (h : n < (encodeByte c).length) :
    cutByte n c = (encodeByte c).take n ↔ ¬ (n = 2 ∧ 160 ≤ c) := by
  rcases encodeByte_length_cases c with ⟨hc, hlen⟩ | ⟨hc, hlen⟩
  · obtain rfl : n = 0 := by omega
    simp [cutByte]
  · have hdigit : (48 : UInt8) + (c >>> 4) = hexDigit (c >>> 4) ↔ ¬ 160 ≤ c := by
      have hall : ∀ k : Fin 256, (48 : UInt8) + (UInt8.ofNat k >>> 4) = hexDigit (UInt8.ofNat k >>> 4) ↔
          ¬ 160 ≤ UInt8.ofNat k := by decide +kernel
      simpa using hall ⟨c.toNat, c.toNat_lt⟩
    have henc := encodeByte_of_length hlen
    rw [hlen] at h
    interval_cases n
    · simp [cutByte]
    · simp [cutByte, henc]
    · simp [cutByte, henc, hdigit]

theorem cutsLetter_cons_of_fits {n : ℕ} {c : UInt8} {cs : List UInt8} (h : (encodeByte c).length ≤ n) :
    CutsLetter n (c :: cs) ↔ CutsLetter (n - (encodeByte c).length) cs := by
  constructor
  · rintro ⟨front, d, rest, hcs, hlen, hd, hbig⟩
    cases front with
    | nil =>
      obtain ⟨rfl, rfl⟩ : c = d ∧ cs = rest := by simpa using hcs
      have hthree : (encodeByte c).length = 3 := by simp [encodeByte, hd]
      simp only [encode, List.flatMap_nil, List.length_nil] at hlen
      omega
    | cons e front =>
      obtain ⟨rfl, hcs'⟩ : c = e ∧ cs = front ++ d :: rest := by simpa using hcs
      rw [encode_cons, List.length_append] at hlen
      exact ⟨front, d, rest, hcs', by omega, hd, hbig⟩
  · rintro ⟨front, d, rest, rfl, hlen, hd, hbig⟩
    refine ⟨c :: front, d, rest, rfl, ?_, hd, hbig⟩
    rw [encode_cons, List.length_append]
    omega

theorem cutsLetter_cons_of_cut {n : ℕ} {c : UInt8} {cs : List UInt8} (h : n < (encodeByte c).length) :
    CutsLetter n (c :: cs) ↔ n = 2 ∧ 160 ≤ c := by
  constructor
  · rintro ⟨front, d, rest, hcs, hlen, hd, hbig⟩
    cases front with
    | nil =>
      obtain ⟨rfl, rfl⟩ : c = d ∧ cs = rest := by simpa using hcs
      exact ⟨hlen.symm, hbig⟩
    | cons e front =>
      obtain ⟨rfl, -⟩ : c = e ∧ cs = front ++ d :: rest := by simpa using hcs
      rw [encode_cons, List.length_append] at hlen
      omega
  · rintro ⟨rfl, hbig⟩
    refine ⟨[], c, cs, rfl, rfl, ?_, hbig⟩
    rcases encodeByte_length_cases c with ⟨hc, hlen⟩ | ⟨hc, hlen⟩
    · omega
    · exact hc

theorem cutText_eq_take_iff (n : ℕ) (cs : List UInt8) :
    cutText n cs = (encode cs).take n ↔ ¬ CutsLetter n cs := by
  induction cs generalizing n with
  | nil =>
    have hno : ¬ CutsLetter n [] := by
      rintro ⟨front, c, rest, hcs, -⟩
      simp at hcs
    simpa [cutText, encode] using hno
  | cons c cs ih =>
    rw [cutText, encode_cons, List.take_append]
    split
    next hfits =>
      rw [cutsLetter_cons_of_fits hfits, ← ih, List.take_of_length_le hfits, List.append_right_inj]
    next hcut =>
      have hlt : n < (encodeByte c).length := by omega
      rw [cutsLetter_cons_of_cut hlt, ← cutByte_eq_take_iff hlt, Nat.sub_eq_zero_of_le hlt.le,
        List.take_zero, List.append_nil]

/-- All but the last byte is right in any case. -/
theorem take_cutText {n m : ℕ} (h : n < m) (cs : List UInt8) :
    (cutText m cs).take n = (encode cs).take n := by
  induction cs generalizing n m with
  | nil => simp [cutText, encode]
  | cons c cs ih =>
    rw [cutText, encode_cons, List.take_append]
    split
    next hfits =>
      rw [List.take_append]
      rcases Nat.lt_or_ge n (encodeByte c).length with hn | hn
      · rw [Nat.sub_eq_zero_of_le hn.le, List.take_zero, List.take_zero]
      · rw [ih (by omega)]
    next hcut =>
      have hthree : (encodeByte c).length = 3 := by
        rcases encodeByte_length_cases c with ⟨-, hlen⟩ | ⟨-, hlen⟩ <;> omega
      have henc : encodeByte c = [37, hexDigit (c >>> 4), hexDigit (c &&& 15)] :=
        encodeByte_of_length hthree
      rw [Nat.sub_eq_zero_of_le (by omega), List.take_zero, List.append_nil, henc]
      obtain rfl | ⟨rfl, rfl⟩ : n = 0 ∨ n = 1 ∧ m = 2 := by omega
      · rfl
      · rfl

/-! ### Calls -/

/-- What a call leaves that has put `written`. -/
def UrlPrinted.of (written : List UInt8) : UrlPrinted :=
  ⟨written, written.length, toInt written.length⟩

section Calls

variable {size : ℕ} {fmt : List UInt8} {args : List UrlArg}

theorem urlVsnprintf_of_finished (hargs : ArgsMatch fmt args) (hend : Finished fmt args) (size : ℕ) :
    urlVsnprintf size fmt args = .ok (.of (cutText size (formatText fmt args).text)) := by
  have hfault : (formatText fmt args).fault = none := by
    unfold ArgsMatch at hargs
    unfold Finished at hend
    rcases hf : (formatText fmt args).fault with _ | _ | _
    · rfl
    · exact absurd hf hend
    · exact absurd hf hargs
  rw [urlVsnprintf_eq, FaultyText.onto, hfault]
  dsimp only [Except.map]
  rw [UrlBuf.putAll_cut, List.nil_append]
  rfl

/-- A call that fills its buffer does not get to the end of the format. -/
theorem urlVsnprintf_of_full (h : size ≤ (encode (formatText fmt args).text).length) :
    urlVsnprintf size fmt args = .ok (.of (cutText size (formatText fmt args).text)) := by
  have hfull : size - (encode (formatText fmt args).text).length = 0 := Nat.sub_eq_zero_of_le h
  have honto : (formatText fmt args).onto ⟨[], size⟩ =
      .ok ⟨cutText size (formatText fmt args).text, 0⟩ := by
    rw [FaultyText.onto, UrlBuf.putAll_cut, List.nil_append]
    cases (formatText fmt args).fault with
    | none => simp only [hfull]
    | some e => simp only [hfull, if_true]
  rw [urlVsnprintf_eq, honto]
  rfl

theorem urlVsnprintf_of_unfinished (hend : ¬ Finished fmt args)
    (h : (encode (formatText fmt args).text).length < size) :
    urlVsnprintf size fmt args = .error .format := by
  have hfault : (formatText fmt args).fault = some .format := not_not.mp hend
  rw [urlVsnprintf_eq, FaultyText.onto, hfault, UrlBuf.putAll_cut]
  dsimp only
  rw [if_neg (by omega)]
  rfl

theorem urlVsnprintf_ok_iff (hargs : ArgsMatch fmt args) (size : ℕ) (r : UrlPrinted) :
    urlVsnprintf size fmt args = .ok r ↔
      (Finished fmt args ∨ size ≤ (encode (formatText fmt args).text).length) ∧
        r = .of (cutText size (formatText fmt args).text) := by
  by_cases hend : Finished fmt args
  · rw [urlVsnprintf_of_finished hargs hend, Except.ok.injEq, and_iff_right (Or.inl hend), eq_comm]
  · rcases Nat.lt_or_ge (encode (formatText fmt args).text).length size with hlt | hge
    · rw [urlVsnprintf_of_unfinished hend hlt]
      refine iff_of_false (by simp) ?_
      rintro ⟨hend' | hge, -⟩
      · exact hend hend'
      · omega
    · rw [urlVsnprintf_of_full hge, Except.ok.injEq, and_iff_right (Or.inr hge), eq_comm]

end Calls

/-! ### Inside the buffer -/

/-- The offsets that a call writes to. -/
def UrlPrinted.offsets (r : UrlPrinted) : List ℕ := List.range r.written.length ++ [r.nul]

/-- The call reads no more than its format and writes only inside its buffer, the output with the
terminator behind it, and what it returns is smaller than `size`. -/
def UrlStaysInside (size : ℕ) (fmt : List UInt8) (args : List UrlArg) : Prop :=
  ∃ r, urlVsnprintf size fmt args = .ok r ∧ (∀ i ∈ r.offsets, i < size) ∧
    r.nul = r.written.length ∧ r.ret < size

theorem offsets_of_lt_iff (w : List UInt8) (size : ℕ) :
    (∀ i ∈ (UrlPrinted.of w).offsets, i < size) ↔ w.length < size := by
  constructor
  · intro h
    exact h w.length (by simp [UrlPrinted.offsets, UrlPrinted.of])
  · intro h i hi
    simp only [UrlPrinted.offsets, UrlPrinted.of, List.mem_append, List.mem_range,
      List.mem_singleton] at hi
    omega

/-- Of two calls with one format, the one with the smaller buffer puts the first bytes of what the other
puts. -/
def Truncates (n m : ℕ) (fmt : List UInt8) (args : List UrlArg) : Prop :=
  ∃ short long, urlVsnprintf n fmt args = .ok short ∧ urlVsnprintf m fmt args = .ok long ∧
    short.written = long.written.take (min n long.written.length)

theorem cutText_eq_take_cutText_iff {n m : ℕ} (h : n ≤ m) (cs : List UInt8) :
    cutText n cs = (cutText m cs).take (min n (cutText m cs).length) ↔ n = m ∨ ¬ CutsLetter n cs := by
  rw [List.take_eq_take_min.symm]
  rcases h.eq_or_lt with rfl | hlt
  · refine iff_of_true ?_ (Or.inl rfl)
    refine (List.take_of_length_le ?_).symm
    rw [cutText_length]
    exact min_le_left _ _
  · rw [take_cutText hlt, cutText_eq_take_iff, or_iff_right hlt.ne]

end Spigeon
