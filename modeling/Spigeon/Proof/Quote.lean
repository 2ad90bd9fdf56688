import Spigeon.Lib.CStr
import Spigeon.Spec.Quote

/-!
# What quoted values decode to

`parse_quote` reads the tokens of its grammar with first octal digits up to 2 only, and the last digit of
an octal escape as the first one (`codeByte`). In the buffer the output, the rest of what it
has overwritten and what is not yet read stand one behind the other (`quoteLoop_eq`).

* `parse_quote_iff`: it never leaves the value and its terminator, and decodes exactly the values whose
  octal escapes begin with a digit up to 2 and end with the same one.
-/

namespace Spigeon

open Quoted

/-! ### The pattern -/

theorem QuotedValue.of_cons {c : UInt8} {v : List UInt8} (h : QuotedValue (c :: v)) (hc : c ≠ 92) :
    QuotedValue v := by
  cases h with
  | plain _ _ _ hv => exact hv
  | escape => exact absurd rfl hc
  | hex => exact absurd rfl hc
  | octal => exact absurd rfl hc

theorem ne_backslash_of_isHex {c : UInt8} (h : isHex c = true) : c ≠ 92 := by
  rintro rfl
  exact absurd h (by decide)

theorem ne_backslash_of_isOctal {c : UInt8} (h : isOctal c = true) : c ≠ 92 := by
  rintro rfl
  exact absurd h (by decide)

theorem QuotedValue.plain_digit {c : UInt8} {v : List UInt8} (hc : isOctal c = true) (hv : QuotedValue v) :
    QuotedValue (c :: v) := by
  refine .plain ?_ (ne_backslash_of_isOctal hc) ?_ hv <;>
  · rintro rfl
    exact absurd hc (by decide)

theorem QuotedValue.plain_hex {c : UInt8} {v : List UInt8} (hc : isHex c = true) (hv : QuotedValue v) :
    QuotedValue (c :: v) := by
  refine .plain ?_ (ne_backslash_of_isHex hc) ?_ hv <;>
  · rintro rfl
    exact absurd hc (by decide)

/-- A backslash is always followed by what it escapes, and what follows that is a value again. -/
theorem QuotedValue.escaped {v : List UInt8} (h : QuotedValue (92 :: v)) :
    ∃ e rest, v = e :: rest ∧ QuotedValue rest := by
  cases h with
  | plain _ hc => exact absurd rfl hc
  | escape hv => exact ⟨_, _, rfl, hv⟩
  | hex hh hl hv => exact ⟨_, _, rfl, (hv.plain_hex hl).plain_hex hh⟩
  | octal _ _ hb hc hv => exact ⟨_, _, rfl, (hv.plain_digit hc).plain_digit hb⟩

/-- **Values are cut into tokens of the pattern**, whatever the first octal digit may be. -/
theorem QuotedValue.next {top : UInt8} {v rest : List UInt8} {tok : Token} (h : QuotedValue v)
    (hv : Quoted.next top v = some (tok, rest)) : tok ≠ .plain 92 ∧ QuotedValue rest := by
  cases v with
  | nil => cases hv
  | cons c v =>
    by_cases hc : c = 92
    · subst hc
      obtain ⟨e, w, rfl, hw⟩ := h.escaped
      rcases w with _ | ⟨d, _ | ⟨d', w⟩⟩
      · cases hv
        exact ⟨by simp, hw⟩
      · cases hv
        exact ⟨by simp, hw⟩
      · simp only [Quoted.next, if_true] at hv
        split at hv
        next hx =>
          cases hv
          have hd := hw.of_cons (ne_backslash_of_isHex hx.2.1)
          exact ⟨by simp, hd.of_cons (ne_backslash_of_isHex hx.2.2)⟩
        next =>
          split at hv
          next ho =>
            cases hv
            have hd := hw.of_cons (ne_backslash_of_isOctal ho.2.2.1)
            exact ⟨by simp, hd.of_cons (ne_backslash_of_isOctal ho.2.2.2)⟩
          next =>
            cases hv
            exact ⟨by simp, hw⟩
    · simp only [Quoted.next, if_neg hc] at hv
      cases hv
      exact ⟨by simpa using hc, h.of_cons hc⟩

/-! ### A round of the loop -/

/-- The byte that is written for a token. -/
def codeByte : Token → UInt8
  | .octal a b _ => (oval a <<< 6) ||| (oval b <<< 3) ||| oval a
  | tok => tok.value

theorem uint8_forall {P : UInt8 → Prop} (h : ∀ k : Fin 256, P (UInt8.ofNat k)) (c : UInt8) : P c := by
  simpa using h ⟨c.toNat, c.toNat_lt⟩

theorem quoteChar_eq {c : UInt8} (h : c ≠ 48) : quoteChar c = named c := by
  revert h
  exact uint8_forall (P := fun c => c ≠ 48 → quoteChar c = named c) (by decide +kernel) c

theorem hval_eq {c : UInt8} (h : isHex c = true) : hval c = hexValue c ∧ hval c < 16 := by
  revert h
  exact uint8_forall (P := fun c => isHex c = true → hval c = hexValue c ∧ hval c < 16) (by decide +kernel) c

theorem shiftLeft_or {a b : UInt8} (ha : a < 16) (hb : b < 16) : (a <<< 4) ||| b = 16 * a + b := by
  have hall : ∀ i j : Fin 16, (UInt8.ofNat i <<< 4) ||| UInt8.ofNat j =
      (16 : UInt8) * UInt8.ofNat i + UInt8.ofNat j := by decide +kernel
  have ha' : a.toNat < 16 := ha
  have hb' : b.toNat < 16 := hb
  simpa using hall ⟨a.toNat, ha'⟩ ⟨b.toNat, hb'⟩

theorem hval_or {h l : UInt8} (hh : isHex h = true) (hl : isHex l = true) :
    (hval h <<< 4) ||| hval l = (Token.hex h l).value := by
  obtain ⟨heq, hlt⟩ := hval_eq hh
  obtain ⟨leq, llt⟩ := hval_eq hl
  rw [shiftLeft_or hlt llt, heq, leq]
  rfl

theorem octal_digit_iff (c : UInt8) : (c = 48 ∨ c = 49 ∨ c = 50) ↔ 48 ≤ c ∧ c ≤ 50 :=
  uint8_forall (P := fun c => (c = 48 ∨ c = 49 ∨ c = 50) ↔ 48 ≤ c ∧ c ≤ 50) (by decide +kernel) c

theorem named_of_octal {c : UInt8} (h : c = 48 ∨ c = 49 ∨ c = 50) : (if c = 48 then 0 else c) = named c := by
  rcases h with rfl | rfl | rfl <;> rfl

section Reads

variable (front tail : List UInt8)

theorem read_append (w : List UInt8) (j : ℕ) : (front ++ w)[front.length + j]? = w[j]? := by
  rw [List.getElem?_append_right (by omega), Nat.add_sub_cancel_left]

/-- Without two characters of the value behind it, an escape is one character. -/
theorem quoteSwitch_short (e : UInt8) {w : List UInt8} (hw : w.length < 2) :
    quoteSwitch (front ++ e :: (w ++ tail)) (front.length + (w.length + 1)) front.length =
      some (named e, 0) := by
  have hread : (front ++ e :: (w ++ tail))[front.length]? = some e := read_append front _ 0
  have hlen : ¬ front.length + 2 < front.length + (w.length + 1) := by omega
  rw [quoteSwitch, hread, Option.bind_some]
  simp only [if_neg hlen]
  split_ifs with hx ho hzero
  · rw [hx]; rfl
  · rw [← named_of_octal ho, if_pos hzero]
  · rw [← named_of_octal ho, if_neg hzero]
  · rw [quoteChar_eq fun h => ho (Or.inl h)]

theorem quoteSwitch_long (e d d' : UInt8) (w : List UInt8) :
    quoteSwitch (front ++ e :: d :: d' :: (w ++ tail)) (front.length + (w.length + 3)) front.length =
      if e = 120 ∧ isHex d ∧ isHex d' then some ((Token.hex d d').value, 2)
      else if 48 ≤ e ∧ e ≤ 50 ∧ isOctal d ∧ isOctal d' then some (codeByte (.octal e d d'), 2)
      else some (named e, 0) := by
  have hread : (front ++ e :: d :: d' :: (w ++ tail))[front.length]? = some e := read_append front _ 0
  have hread1 : (front ++ e :: d :: d' :: (w ++ tail))[front.length + 1]? = some d :=
    read_append front _ 1
  have hread2 : (front ++ e :: d :: d' :: (w ++ tail))[front.length + 2]? = some d' :=
    read_append front _ 2
  have hlen : front.length + 2 < front.length + (w.length + 3) := by omega
  rw [quoteSwitch, hread, hread1, hread2]
  simp only [Option.bind_some, if_pos hlen]
  by_cases hx : e = 120
  · subst hx
    by_cases hd : isHex d = true ∧ isHex d' = true
    · simp [hd, hval_or]
    · have hno : ¬ ((120 : UInt8) ≤ 50) := by decide
      rw [if_pos rfl, if_neg hd, if_neg (fun h => hd h.2), if_neg (fun h => hno h.2.1)]
      rfl
  · have hnx : ¬ (e = 120 ∧ isHex d = true ∧ isHex d' = true) := fun h => hx h.1
    rw [if_neg hx, if_neg hnx]
    by_cases ho : e = 48 ∨ e = 49 ∨ e = 50
    · obtain ⟨h1, h2⟩ := (octal_digit_iff e).mp ho
      rw [if_pos ho, named_of_octal ho]
      simp only [h1, h2, true_and]
      rfl
    · have hno : ¬ (48 ≤ e ∧ e ≤ 50 ∧ isOctal d = true ∧ isOctal d' = true) := by
        intro h
        exact ho ((octal_digit_iff e).mpr ⟨h.1, h.2.1⟩)
      rw [if_neg ho, if_neg hno, quoteChar_eq fun h => ho (Or.inl h)]

/-- Behind a backslash the switch looks at the next character. -/
theorem quoteBody_backslash (e : UInt8) (w : List UInt8) :
    quoteBody (front ++ 92 :: e :: (w ++ tail)) (front.length + (w.length + 2)) front.length =
      (quoteSwitch ((front ++ [92]) ++ e :: (w ++ tail)) ((front ++ [92]).length + (w.length + 1))
        (front ++ [92]).length).map fun p => (some p.1, p.2 + 1) := by
  have hread : (front ++ 92 :: e :: (w ++ tail))[front.length]? = some 92 := read_append front _ 0
  have hlen : front.length + 1 < front.length + (w.length + 2) := by omega
  have hpos : (front ++ [92]).length = front.length + 1 := by simp
  have hend : (front ++ [92]).length + (w.length + 1) = front.length + (w.length + 2) := by
    rw [hpos]
    omega
  rw [quoteBody, hread, Option.bind_some, if_pos rfl, if_pos hlen, hend, hpos, List.append_assoc,
    List.singleton_append]

/-- **One token is decoded in one round**, wherever it stands in the buffer. -/
theorem quoteBody_eq {v rest : List UInt8} {tok : Token} (hv : next 50 v = some (tok, rest))
    (htok : tok ≠ .plain 92) :
    quoteBody (front ++ (v ++ tail)) (front.length + v.length) front.length =
      some (some (codeByte tok), tok.text.length - 1) := by
  rcases v with _ | ⟨c, v⟩
  · cases hv
  by_cases hc : c = 92
  · subst hc
    -- hexadecimal and octal escapes need three bytes behind the backslash
    rcases v with _ | ⟨e, _ | ⟨d, _ | ⟨d', w⟩⟩⟩
    · cases hv
      exact absurd rfl htok
    · cases hv
      have hbody := quoteBody_backslash front tail e []
      rw [quoteSwitch_short (front ++ [92]) tail e (by decide)] at hbody
      exact hbody
    · cases hv
      have hbody := quoteBody_backslash front tail e [d]
      rw [quoteSwitch_short (front ++ [92]) tail e (by simp)] at hbody
      exact hbody
    · have hbody := quoteBody_backslash front tail e (d :: d' :: w)
      have hswitch := quoteSwitch_long (front ++ [92]) tail e d d' w
      change quoteBody _ (front.length + (w.length + 4)) _ = _
      change quoteBody _ (front.length + (w.length + 4)) _ = Option.map _ (quoteSwitch _
        ((front ++ [92]).length + (w.length + 3)) _) at hbody
      simp only [List.cons_append] at hbody ⊢
      rw [hbody, hswitch]
      simp only [next, if_true] at hv
      split at hv
      next hx =>
        cases hv
        rw [if_pos hx]
        rfl
      next hx =>
        rw [if_neg hx]
        split at hv
        next ho =>
          cases hv
          rw [if_pos ho]
          rfl
        next ho =>
          cases hv
          rw [if_neg ho]
          rfl
  · have hread : (front ++ (c :: v ++ tail))[front.length]? = some c := read_append front _ 0
    simp only [next, if_neg hc] at hv
    cases hv
    rw [quoteBody, hread, Option.bind_some, if_neg hc]
    rfl

end Reads

/-! ### The loop -/

/-- What is written for a value. -/
def codeBytes (v : List UInt8) : List UInt8 := (tokens 50 v).map codeByte

/-- A write behind what is done, over what was read before or the token that is read. -/
theorem write_token {done old text rest : List UInt8} (htext : 0 < text.length) (b : UInt8) (i : ℕ)
    (writes : List (ℕ × ℕ)) :
    (⟨done ++ (old ++ (text ++ rest)), i, done.length, writes⟩ : QuoteState).write b =
      some ⟨(done ++ [b]) ++ ((old ++ text).tail ++ rest), i, done.length,
        writes ++ [(done.length, i)]⟩ := by
  have hne : old ++ text ≠ [] := by
    intro h
    rw [(List.append_eq_nil_iff.mp h).2] at htext
    exact absurd htext (by decide)
  obtain ⟨x, xs, hx⟩ := List.exists_cons_of_ne_nil hne
  have hbuf : done ++ (old ++ (text ++ rest)) = done ++ x :: (xs ++ rest) := by
    rw [← List.append_assoc old, hx, List.cons_append]
  rw [QuoteState.write, if_pos (by simp [hbuf]), hbuf, hx]
  simp

/-- **The loop decodes the value in place.** Written are `done`, read are also `old`, and `v` is left. -/
theorem quoteLoop_eq (tail v : List UInt8) (hv : QuotedValue v)
    (done old : List UInt8) (writes : List (ℕ × ℕ)) (len : ℕ) (hlen : len = (done ++ old).length + v.length) :
    ∃ old' writes', quoteLoop len ⟨done ++ (old ++ (v ++ tail)), (done ++ old).length, done.length, writes⟩ =
        some ⟨(done ++ codeBytes v) ++ (old' ++ tail), len, (done ++ codeBytes v).length, writes'⟩ ∧
      (done ++ codeBytes v ++ old').length = len ∧
      ∀ p ∈ writes', p ∈ writes ∨ (p.1 ≤ p.2 ∧ p.2 < len) := by
  induction v using tokens_induction 50 generalizing done old writes with
  | hnil =>
    have hnone : codeBytes [] = [] := by rw [codeBytes, tokens_nil, List.map_nil]
    have hend : (done ++ old).length = len := by simpa using hlen.symm
    refine ⟨old, writes, ?_, ?_, fun p hp => Or.inl hp⟩
    · rw [quoteLoop, if_neg (by simp [hlen])]
      simp [hnone, hlen]
    · rw [hnone, List.append_nil]
      exact hend
  | hnext v tok rest hnext ih =>
    obtain ⟨htok, hrest⟩ := hv.next hnext
    have htext := tok.text_length_pos
    obtain rfl := text_append_of_next hnext
    have hcode : codeBytes (tok.text ++ rest) = codeByte tok :: codeBytes rest := by
      rw [codeBytes, tokens_of_next hnext, List.map_cons]
      rfl
    -- one round: the byte goes over the first one behind `done`, and the token joins what is read
    have hbody := quoteBody_eq (done ++ old) tail hnext htok
    rw [← hlen, List.append_assoc done] at hbody
    have hlen' : len = (done ++ old).length + (tok.text.length + rest.length) := by
      rw [hlen]
      simp
    have hstep : quoteLoop len ⟨done ++ (old ++ (tok.text ++ rest ++ tail)), (done ++ old).length,
        done.length, writes⟩ = quoteLoop len ⟨(done ++ [codeByte tok]) ++ ((old ++ tok.text).tail ++
          (rest ++ tail)), ((done ++ [codeByte tok]) ++ (old ++ tok.text).tail).length,
          (done ++ [codeByte tok]).length, writes ++ [(done.length, (done ++ old).length)]⟩ := by
      rw [quoteLoop, if_pos (show (done ++ old).length < len by omega), hbody]
      dsimp only [Option.elim]
      rw [List.append_assoc tok.text, write_token htext]
      dsimp only
      congr 2
      · simp only [List.length_append, List.length_tail, List.length_singleton]
        omega
      · simp
    obtain ⟨old', writes', hloop, hfill, hw⟩ := ih hrest (done ++ [codeByte tok]) (old ++ tok.text).tail
      (writes ++ [(done.length, (done ++ old).length)]) (by
        simp only [List.length_append, List.length_tail, List.length_singleton] at hlen' ⊢
        omega)
    have hassoc : done ++ [codeByte tok] ++ codeBytes rest = done ++ codeBytes (tok.text ++ rest) := by
      rw [hcode, List.append_assoc, List.singleton_append]
    rw [hassoc] at hloop hfill
    refine ⟨old', writes', hstep.trans hloop, hfill, ?_⟩
    intro p hp
    rcases hw p hp with hp | hp
    · rcases List.mem_append.mp hp with hp | hp
      · exact Or.inl hp
      · -- the write of this round is not ahead of its read
        obtain rfl := List.mem_singleton.mp hp
        refine Or.inr ⟨?_, ?_⟩
        · simp
        · dsimp only
          omega
    · exact Or.inr hp

/-- **What `parse_quote` leaves**: the bytes of its tokens and the terminator, over a value and what stood
behind it. -/
theorem parseQuote_eq {v : List UInt8} (hv : QuotedValue v) (t : UInt8) (rest : List UInt8) :
    ∃ r old, parseQuote (v ++ t :: rest) v.length = some r ∧ r.buf = codeBytes v ++ 0 :: (old ++ rest) ∧
      r.cur = (codeBytes v).length ∧ (codeBytes v ++ old).length = v.length ∧
      ∀ p ∈ r.writes, p.1 ≤ p.2 ∧ p.1 ≤ v.length := by
  obtain ⟨old, writes, hloop, hfill, hw⟩ := quoteLoop_eq (t :: rest) v hv [] [] [] v.length (by simp)
  simp only [List.nil_append, List.length_nil, List.length_append] at hloop hfill
  have hwrite : (⟨codeBytes v ++ (old ++ ([t] ++ rest)), v.length, (codeBytes v).length, writes⟩ :
      QuoteState).write 0 = some ⟨(codeBytes v ++ [0]) ++ ((old ++ [t]).tail ++ rest), v.length,
        (codeBytes v).length, writes ++ [((codeBytes v).length, v.length)]⟩ :=
    write_token (show 0 < [t].length from Nat.one_pos) 0 v.length writes
  have hrun : parseQuote (v ++ t :: rest) v.length = some ⟨(codeBytes v ++ [0]) ++
      ((old ++ [t]).tail ++ rest), v.length, (codeBytes v).length,
        writes ++ [((codeBytes v).length, v.length)]⟩ := by
    rw [parseQuote, hloop]
    exact hwrite
  refine ⟨_, (old ++ [t]).tail, hrun, ?_, rfl, ?_, ?_⟩
  · rw [List.append_assoc, List.singleton_append]
  · rw [List.length_append, List.length_tail, List.length_append, List.length_singleton]
    omega
  · intro p hp
    rcases List.mem_append.mp hp with hp | hp
    · have hread := (hw p hp).resolve_left List.not_mem_nil
      exact ⟨hread.1, by omega⟩
    · obtain rfl := List.mem_singleton.mp hp
      dsimp only
      omega

/-! ### The grammar -/

/-- The octal escape ends with its first digit, which is at most 2. -/
def RepeatsDigit : Token → Prop
  | .octal a _ c => a ≤ 50 ∧ c = a
  | _ => True

/-- How the code reads a token: an escape that begins with 3 is no octal one. -/
def codeTokens : Token → List Token
  | .octal a b c => if a = 51 then [.escape a, .plain b, .plain c] else [.octal a b c]
  | tok => [tok]

theorem le_fifty {a : UInt8} (h : a ≤ 51) (hne : a ≠ 51) : a ≤ 50 := by
  revert h hne
  exact uint8_forall (P := fun a => a ≤ 51 → a ≠ 51 → a ≤ 50) (by decide +kernel) a

/-- The first token is the same unless it is an octal one that begins with 3. -/
theorem next_fifty {v rest : List UInt8} {tok : Token} (h : next 51 v = some (tok, rest))
    (htok : ∀ b c, tok ≠ .octal 51 b c) : next 50 v = some (tok, rest) := by
  rcases v with _ | ⟨c, _ | ⟨e, _ | ⟨d, _ | ⟨d', v⟩⟩⟩⟩
  · cases h
  · exact h
  · exact h
  · exact h
  · simp only [next] at h ⊢
    split_ifs at h with hc hx ho
    · rw [if_pos hc, if_pos hx, h]
    · have hne : e ≠ 51 := by
        rintro rfl
        cases h
        exact htok d d' rfl
      rw [if_pos hc, if_neg hx, if_pos ⟨ho.1, le_fifty ho.2.1 hne, ho.2.2⟩, h]
    · have hno : ¬ (48 ≤ e ∧ e ≤ 50 ∧ isOctal d = true ∧ isOctal d' = true) := by
        rintro ⟨h48, h50, hd⟩
        exact ho ⟨h48, UInt8.le_trans h50 (by decide), hd⟩
      rw [if_pos hc, if_neg hx, if_neg hno, h]
    · rw [if_neg hc, h]

theorem codeTokens_eq {tok : Token} (htok : ∀ b c, tok ≠ .octal 51 b c) : codeTokens tok = [tok] := by
  cases tok with
  | octal a b c =>
    rw [codeTokens, if_neg]
    rintro rfl
    exact htok b c rfl
  | _ => rfl

/-- Of an octal escape that begins with 3, the code reads the 3 as escaped and two plain digits. -/
theorem tokens_three {b c : UInt8} (hb : isOctal b = true) (hc : isOctal c = true) (rest : List UInt8) :
    tokens 50 ((Token.octal 51 b c).text ++ rest) = .escape 51 :: .plain b :: .plain c :: tokens 50 rest := by
  have hnext : next 50 ((Token.octal 51 b c).text ++ rest) = some (.escape 51, b :: c :: rest) := by
    have hno : ¬ ((51 : UInt8) ≤ 50) := by decide
    simp [Token.text, next, hno]
  rw [tokens_of_next hnext, tokens_plain 50 (ne_backslash_of_isOctal hb),
    tokens_plain 50 (ne_backslash_of_isOctal hc)]

theorem tokens_fifty (v : List UInt8) : tokens 50 v = (tokens 51 v).flatMap codeTokens := by
  induction v using tokens_induction 51 with
  | hnil => rw [tokens_nil, tokens_nil, List.flatMap_nil]
  | hnext v tok rest h ih =>
    rw [tokens_of_next h, List.flatMap_cons, ← ih]
    by_cases htok : ∃ b c, tok = .octal 51 b c
    · obtain ⟨b, c, rfl⟩ := htok
      obtain ⟨-, -, hb, hc⟩ := wellFormed_of_next h
      rw [text_append_of_next h, tokens_three hb hc]
      rfl
    · have hne : ∀ b c, tok ≠ .octal 51 b c := fun b c heq => htok ⟨b, c, heq⟩
      rw [tokens_of_next (next_fifty h hne), codeTokens_eq hne, List.singleton_append]

theorem codeByte_octal {a b : UInt8} (ha : 48 ≤ a) (ha' : a ≤ 50) (hb : isOctal b = true) (c : UInt8) :
    codeByte (.octal a b c) = 64 * (a - 48) + 8 * (b - 48) + (a - 48) := by
  have hall : ∀ k : Fin 256, isOctal (UInt8.ofNat k) = true → ∀ a ∈ [(48 : UInt8), 49, 50],
      (oval a <<< 6) ||| (oval (UInt8.ofNat k) <<< 3) ||| oval a =
        (64 : UInt8) * (a - 48) + 8 * (UInt8.ofNat k - 48) + (a - 48) := by decide +kernel
  have hmem : a ∈ [(48 : UInt8), 49, 50] := by
    simpa using (octal_digit_iff a).mpr ⟨ha, ha'⟩
  have hb' : UInt8.ofNat b.toNat = b := by simp
  have hval := hall ⟨b.toNat, b.toNat_lt⟩ (by simpa using hb) a hmem
  rw [hb'] at hval
  exact hval

/-- Of an octal escape one byte is written only if it begins with a digit up to 2, and this is the right
one only if it ends with the same digit. -/
theorem codeByte_iff {tok : Token} (h : tok.WellFormed 51) :
    (codeTokens tok).map codeByte = [tok.value] ↔ RepeatsDigit tok := by
  cases tok with
  | plain c => exact iff_of_true rfl trivial
  | escape e => exact iff_of_true rfl trivial
  | hex h l => exact iff_of_true rfl trivial
  | octal a b c =>
    obtain ⟨ha, ha', hb, -⟩ := h
    rw [codeTokens, RepeatsDigit]
    split
    next h51 =>
      refine iff_of_false (by simp) ?_
      rintro ⟨h50, -⟩
      rw [h51] at h50
      exact absurd h50 (by decide)
    next h51 =>
      have h50 := le_fifty ha' h51
      rw [List.map_singleton, List.singleton_inj, codeByte_octal ha h50 hb, Token.value,
        and_iff_right h50, UInt8.add_right_inj, UInt8.sub_left_inj, eq_comm]

theorem flatMap_eq_map_iff {α β : Type} {f : α → List β} {g : α → β} (l : List α)
    (hf : ∀ a, f a ≠ []) : l.flatMap f = l.map g ↔ ∀ a ∈ l, f a = [g a] := by
  have hpos : ∀ a, 1 ≤ (f a).length := fun a => List.length_pos_of_ne_nil (hf a)
  have hlen : ∀ l : List α, l.length ≤ (l.flatMap f).length := by
    intro l
    induction l with
    | nil => simp
    | cons a l ih =>
      have ha := hpos a
      rw [List.flatMap_cons, List.length_append, List.length_cons]
      omega
  induction l with
  | nil => simp
  | cons a l ih =>
    rw [List.flatMap_cons, List.map_cons, List.forall_mem_cons]
    refine Iff.trans ?_ (and_congr_right' ih)
    constructor
    · intro heq
      -- by their lengths nothing but the first byte is of the first list
      have hone : (f a).length = [g a].length := by
        have hall := congrArg List.length heq
        have hl := hlen l
        have ha := hpos a
        simp only [List.length_append, List.length_cons, List.length_map, List.length_nil] at hall ⊢
        omega
      exact List.append_inj heq hone
    · rintro ⟨ha, hl⟩
      rw [ha, hl, List.singleton_append]

theorem codeBytes_eq_iff (v : List UInt8) :
    codeBytes v = decode v ↔ ∀ tok ∈ tokens 51 v, RepeatsDigit tok := by
  have hcode : codeBytes v = (tokens 51 v).flatMap fun tok => (codeTokens tok).map codeByte := by
    rw [codeBytes, tokens_fifty, List.map_flatMap]
  rw [hcode, decode, flatMap_eq_map_iff]
  · exact forall₂_congr fun tok htok => codeByte_iff (wellFormed_of_mem htok)
  · intro tok
    rw [ne_eq, List.map_eq_nil_iff]
    cases tok <;> simp only [codeTokens] <;> [skip; skip; skip; split] <;> simp

/-! ### Values -/

/-- The string in the buffer is `out`, with a terminator, and its length is returned. -/
def QuoteState.Holds (r : QuoteState) (out : List UInt8) : Prop :=
  r.cur = out.length ∧ r.buf.take (out.length + 1) = out ++ [0]

theorem QuoteState.holds_iff {r : QuoteState} {out rest : List UInt8} (hbuf : r.buf = out ++ 0 :: rest)
    (hcur : r.cur = out.length) (out' : List UInt8) : r.Holds out' ↔ out = out' := by
  have htake : r.buf.take (out.length + 1) = out ++ [0] := by
    rw [hbuf, List.take_append, List.take_of_length_le (by omega), Nat.add_sub_cancel_left]
    rfl
  constructor
  · rintro ⟨hlen, htake'⟩
    rw [← hlen, hcur, htake] at htake'
    exact List.append_cancel_right htake'
  · rintro rfl
    exact ⟨hcur, htake⟩

theorem quotedValue_octalText (s : List UInt8) : QuotedValue (octalText s) := by
  induction s with
  | nil => exact .nil
  | cons b s ih =>
    obtain ⟨h1, h2, h3, h4⟩ := (octalEscape_spec b).1
    exact .octal h1 h2 h3 h4 ih

/-- A byte whose octal escape is decoded: its last three bits are the first two. -/
def OctalSafe (b : UInt8) : Prop := b >>> 6 ≤ 2 ∧ b &&& (7 : UInt8) = b >>> 6

theorem repeatsDigit_octalEscape (b : UInt8) : RepeatsDigit (octalEscape b) ↔ OctalSafe b :=
  uint8_forall (P := fun b => (((48 : UInt8) + (b >>> 6) ≤ 50 ∧
    (48 : UInt8) + (b &&& (7 : UInt8)) = (48 : UInt8) + (b >>> 6)) ↔ (b >>> 6 ≤ 2 ∧ b &&& (7 : UInt8) = b >>> 6)))
    (by decide +kernel) b

/-- **When quoted values decode as their grammar says.** `parse_quote` writes only to the value and its
terminator and never ahead of where it reads. What it decodes is right exactly if every octal escape
begins with a digit up to 2 and ends with the same one. -/
theorem parse_quote_iff (v : List UInt8) (hv : QuotedValue v) (t : UInt8) (rest : List UInt8) :
    (∃ r, parseQuote (v ++ t :: rest) v.length = some r ∧ (∀ p ∈ r.writes, p.1 ≤ p.2 ∧ p.1 ≤ v.length) ∧
      r.buf.drop (v.length + 1) = rest ∧
      (r.Holds (decode v) ↔ ∀ tok ∈ tokens 51 v, RepeatsDigit tok)) ∧
    ∀ s, ∃ r, parseQuote (octalText s ++ t :: rest) (octalText s).length = some r ∧
      (r.Holds s ↔ ∀ b ∈ s, OctalSafe b) := by
  constructor
  · obtain ⟨r, old, hrun, hbuf, hcur, hfill, hwrites⟩ := parseQuote_eq hv t rest
    refine ⟨r, hrun, hwrites, ?_, ?_⟩
    · have hlen : v.length + 1 = (codeBytes v ++ 0 :: old).length := by
        rw [← hfill]
        simp
        omega
      have hassoc : r.buf = (codeBytes v ++ 0 :: old) ++ rest := by
        rw [hbuf, List.append_assoc, List.cons_append]
      rw [hassoc, hlen, List.drop_left]
    · rw [QuoteState.holds_iff hbuf hcur, codeBytes_eq_iff]
  · intro s
    obtain ⟨r, old, hrun, hbuf, hcur, -, -⟩ := parseQuote_eq (quotedValue_octalText s) t rest
    refine ⟨r, hrun, ?_⟩
    have hdecode := codeBytes_eq_iff (octalText s)
    rw [decode_octalText, tokens_octalText] at hdecode
    rw [QuoteState.holds_iff hbuf hcur, hdecode, List.forall_mem_map]
    exact forall₂_congr fun b _ => repeatsDigit_octalEscape b

/-- A letter in hexadecimal, a newline, and an octal escape that ends as it begins. -/
theorem parse_quote_small :
    ∃ v, QuotedValue v ∧ v = CStr.bytes "\\x41\\n\\121" ∧
      ∃ r, parseQuote (v ++ [34]) v.length = some r ∧ r.Holds (CStr.bytes "A\nQ") := by
  have hv : QuotedValue (CStr.bytes "\\x41\\n\\121") :=
    .hex (by decide) (by decide) (.escape (.octal (by decide) (by decide) (by decide) (by decide) .nil))
  obtain ⟨⟨r, hrun, -, -, hiff⟩, -⟩ := parse_quote_iff _ hv 34 []
  have hdecode : decode (CStr.bytes "\\x41\\n\\121") = CStr.bytes "A\nQ" := by decide +kernel
  have htokens : tokens 51 (CStr.bytes "\\x41\\n\\121") = [.hex 52 49, .escape 110, .octal 49 50 49] := by
    decide +kernel
  refine ⟨_, hv, rfl, r, hrun, ?_⟩
  rw [← hdecode, hiff, htokens]
  simp [RepeatsDigit]

/-- The octal escape of `B` is decoded to `A`, and that of the byte 255 to `377`. -/
theorem parse_quote_octal :
    QuotedValue (CStr.bytes "\\102") ∧ decode (CStr.bytes "\\102") = CStr.bytes "B" ∧
      octalText [255] = CStr.bytes "\\377" ∧
      (parseQuote (CStr.bytes "\\102\"") 4).map (fun r => (r.cur, r.buf)) =
        some (1, CStr.bytes "A\x0002\"") ∧
      (parseQuote (CStr.bytes "\\377\"") 4).map (fun r => (r.cur, r.buf.take 4)) =
        some (3, CStr.bytes "377\x00") := by
  refine ⟨.octal (by decide) (by decide) (by decide) (by decide) .nil, ?_, ?_, ?_, ?_⟩ <;> decide +kernel

end Spigeon
