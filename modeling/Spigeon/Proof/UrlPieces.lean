import Spigeon.Proof.UrlBounds

/-!
# Text that is encoded without loss

A format of characters, `%%`, `%c` and `%s` is put piece by piece (`urlLoop_piece`), each piece with the
text that `printf` gives it. With room for three bytes a character the output is the encoding of the
whole text, and so the text can be read back from it (`url_snprintf_lossless`).
-/

namespace Spigeon

open CInt CStr Printf Percent

/-- The arguments of a piece. -/
def pieceArgs : TextPiece → List UrlArg
  | .literal _ _ | .percent => []
  | .char v => [.int v]
  | .string _ _ val _ _ => [.string val]

/-! ### Strings -/

/-- The conversion before its `s`. -/
def stringConv (minus : Bool) (width : ℕ) : Conv :=
  { minus := minus, width := width, state := if width = 0 then .flags else .width }

/-- A string is justified as by `printf`. Its length and the width are subtracted as `int`. -/
theorem stringText_eq (minus : Bool) {width : ℕ} {val : List UInt8} (hwidth : width < 2 ^ 31)
    (hval : val.length < 2 ^ 31) :
    stringText (stringConv minus width) val = justify minus false width [] val := by
  have hgap : (toInt ((width : ℤ) - val.length)).toNat = width - val.length := by
    rw [toInt_of_range (by omega) (by omega)]
    omega
  have hasIs : textAsIs (stringConv minus width) val = val := by simp [textAsIs, stringConv]
  unfold justify
  cases minus with
  | true =>
    rw [stringText, if_neg (by simp [stringConv]), hasIs]
    by_cases hw : width = 0
    · simp [stringConv, hw]
    · simp [stringConv, hw, hgap]
  | false =>
    by_cases hw : width = 0
    · rw [stringText, if_neg (by simp [stringConv, hw]), hasIs]
      simp [stringConv, hw]
    · rw [stringText, if_pos (by simp [stringConv, hw])]
      have hwidth' : (stringConv false width).width = width := rfl
      have hprec : (stringConv false width).precision = 0 := rfl
      simp only [hwidth', hprec, ne_eq, not_true_eq_false, false_and, if_false, Int.toNat_natCast]
      rcases Nat.lt_or_ge val.length width with hlt | hge
      · rw [min_eq_left (by omega), if_pos (by omega), hgap]
        simp
      · rw [min_eq_right (by omega), if_neg (lt_irrefl _), hasIs]
        simp [Nat.sub_eq_zero_of_le hge]

section Pieces

variable (args : List UrlArg) {b : UrlBuf}

theorem urlLoop_string (minus : Bool) {width : ℕ} (hwidth : width < 2 ^ 31) (fmt : List UInt8)
    (hb : b.size ≠ 0) :
    urlLoop (37 :: ((if minus then [Flag.minus] else []).map Flag.char ++
      ((if width = 0 then [] else numeral .decimal width) ++ fmt))) none args b =
      urlLoop fmt (some (stringConv minus width)) args b := by
  rw [urlLoop, if_neg hb, if_pos rfl, urlLoop_flags args b _ rfl]
  have hflags : ({} : Conv).withFlags (if minus then [Flag.minus] else []) = { minus := minus } := by
    cases minus <;> rfl
  rw [hflags]
  by_cases hw : width = 0
  · subst hw
    rfl
  · rw [if_neg hw, urlLoop_width args b hw hwidth rfl rfl]
    simp [stringConv, hw]

/-- **A piece is put as `printf` prints it**, with any format and any arguments behind it. -/
theorem urlLoop_piece (p : TextPiece) (hp : p.text.length < 2 ^ 31) (fmt : List UInt8)
    (hb : b.size ≠ 0) :
    urlLoop (p.format ++ fmt) none (pieceArgs p ++ args) b = urlLoop fmt none args (b.putAll p.text) := by
  cases p with
  | literal c hc =>
    change urlLoop (c :: fmt) none args b = _
    rw [urlLoop, if_neg hb, if_neg hc.2]
    rfl
  | percent =>
    change urlLoop (37 :: 37 :: fmt) none args b = _
    rw [urlLoop, if_neg hb, if_pos rfl]
    rfl
  | char v =>
    change urlLoop (37 :: 99 :: fmt) none (.int v :: args) b = _
    rw [urlLoop, if_neg hb, if_pos rfl]
    rfl
  | string minus width val hwidth hval =>
    have hlen : val.length < 2 ^ 31 := length_le_justify.trans_lt hp
    have hformat : (TextPiece.string minus width val hwidth hval).format ++ fmt =
        37 :: ((if minus then [Flag.minus] else []).map Flag.char ++
          ((if width = 0 then [] else numeral .decimal width) ++ 115 :: fmt)) := by
      simp [TextPiece.format]
    rw [hformat, urlLoop_string _ minus hwidth _ hb, TextPiece.text, ← stringText_eq minus hwidth hlen,
      ← outString_putAll]
    rfl

/-- The pieces of a format one after the other. Each is met with room left. -/
theorem urlLoop_pieces (ps : List TextPiece) (hps : (ps.flatMap TextPiece.text).length < 2 ^ 31)
    (hroom : 3 * (ps.flatMap TextPiece.text).length < b.size) :
    urlLoop (ps.flatMap TextPiece.format) none (ps.flatMap pieceArgs) b =
      .ok (b.append (ps.flatMap TextPiece.text)) := by
  induction ps generalizing b with
  | nil => simp [urlLoop]
  | cons p ps ih =>
    simp only [List.flatMap_cons, List.length_append] at hps hroom ⊢
    have hput : b.putAll p.text = b.append p.text := UrlBuf.putAll_eq (by omega)
    have hleft : 3 * (ps.flatMap TextPiece.text).length < (b.append p.text).size := by
      have hlen := encode_length_le p.text
      change _ < b.size - (encode p.text).length
      omega
    rw [urlLoop_piece _ p (by omega) _ (by omega), hput, ih (by omega) hleft, UrlBuf.append_append]

end Pieces

/-! ### Calls -/

/-- `url_snprintf` with a format of pieces. -/
def printPieces (size : ℕ) (ps : List TextPiece) : Except UrlFault UrlPrinted :=
  urlSnprintf size (ps.flatMap TextPiece.format) (ps.flatMap pieceArgs)

theorem printPieces_eq {ps : List TextPiece} {t : List UInt8} {size : ℕ} (ht : printf ps = some t)
    (hsize : 3 * t.length + 1 ≤ size) : printPieces size ps = .ok (.of (encode t)) := by
  obtain ⟨hlt, rfl⟩ : (ps.flatMap TextPiece.text).length < 2 ^ 31 ∧ ps.flatMap TextPiece.text = t := by
    simpa [printf] using ht
  have hroom : 3 * (ps.flatMap TextPiece.text).length < (⟨[], size⟩ : UrlBuf).size := hsize
  rw [printPieces, urlSnprintf, urlVsnprintf, urlLoop_pieces ps hlt hroom]
  rfl

/-- **Text is encoded without loss.** The output has unreserved characters and `%HH` only, the text is
decoded from it, and no other text has the same output. -/
theorem url_snprintf_lossless (ps qs : List TextPiece) (t u : List UInt8) (n m : ℕ)
    (ht : printf ps = some t) (hu : printf qs = some u) (hn : 3 * t.length + 1 ≤ n)
    (hm : 3 * u.length + 1 ≤ m) :
    ∃ r s, printPieces n ps = .ok r ∧ printPieces m qs = .ok s ∧
      Encoded r.written ∧ decode r.written = some t ∧ (t ≠ u → r.written ≠ s.written) := by
  refine ⟨_, _, printPieces_eq ht hn, printPieces_eq hu hm, encoded_encode t, decode_encode t, ?_⟩
  intro hne heq
  exact hne (encode_inj heq)

/-- The pieces of `[%-3s]` and of `%c%%`. -/
theorem url_snprintf_lossless_small :
    ∃ ps qs r s, printf ps = some (bytes "[a  ]") ∧ printf qs = some [0xE4, 37] ∧
      printPieces 16 ps = .ok r ∧ printPieces 7 qs = .ok s ∧ Encoded r.written ∧
        decode r.written = some (bytes "[a  ]") ∧ r.written ≠ s.written := by
  let ps : List TextPiece := [.literal 91 (by decide), .string true 3 [97] (by decide) (by decide),
    .literal 93 (by decide)]
  let qs : List TextPiece := [.char 0xE4, .percent]
  have hps : printf ps = some (bytes "[a  ]") := by decide +kernel
  have hqs : printf qs = some [0xE4, 37] := by decide +kernel
  obtain ⟨r, s, hr, hs, henc, hdec, hne⟩ :=
    url_snprintf_lossless ps qs _ _ 16 7 hps hqs (by decide +kernel) (by decide +kernel)
  exact ⟨ps, qs, r, s, hps, hqs, hr, hs, henc, hdec, hne (by decide +kernel)⟩

end Spigeon
