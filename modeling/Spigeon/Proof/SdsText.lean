import Spigeon.Lib.Split
import Spigeon.Proof.SdsOps
import Spigeon.Spec.SdsText

/-!
# Strings that are quoted and split

`sdssplitlen` cuts a text at each separator from the left, and joins give the text back. What `sdscatrepr`
quotes is an argument of `sdssplitargs` again, whatever its bytes are.
-/

namespace Spigeon

open CInt CStr

/-! ### `sdssplitlen` -/

section Splitting

variable {s sep : List UInt8} {st : SplitState}

/-- What was found before `j`. -/
structure Scanning (s sep : List UInt8) (st : SplitState) : Prop where
  start_le : st.start ≤ st.j
  j_le : st.j ≤ s.length
  unseen : ∀ i, st.start ≤ i → i < st.j → ¬ sep <+: s.drop i
  found : s = (st.tokens.map (· ++ sep)).flatten ++ s.drop st.start
  free : ∀ t ∈ st.tokens, Split.Free sep t
  count : st.tokens.length ≤ st.start
  room : (st.tokens.length : ℤ) < st.slots
  slots : st.slots = 5 ∨ st.slots ≤ 2 * (st.tokens.length + 1)

/-- Both tests compare with the separator, inside of the text. -/
theorem foundAt_eq {j : ℕ} (hj : j + sep.length ≤ s.length) :
    foundAt s sep j = some (decide (sep <+: s.drop j)) := by
  have hpre : (s.drop j).take sep.length = sep ↔ sep <+: s.drop j := by
    rw [List.prefix_iff_eq_take]
    exact eq_comm
  rw [foundAt, if_pos hj, Option.some.injEq, Bool.eq_iff_iff, Bool.or_eq_true, Bool.and_eq_true,
    decide_eq_true_iff, decide_eq_true_iff, decide_eq_true_iff, decide_eq_true_iff, hpre]
  refine or_iff_right_of_imp fun ⟨hone, hbyte⟩ => ?_
  obtain ⟨x, rfl⟩ := List.length_eq_one_iff.1 hone
  rw [List.length_singleton] at hj
  rw [List.getElem?_eq_getElem (by omega)] at hbyte
  rw [List.drop_eq_getElem_cons (by omega), Option.some.inj hbyte]
  exact List.prefix_append [x] _

/-- The array is large enough, for the next element and for the final one. -/
theorem Scanning.grow (h : Scanning s sep st) (hlt : s.length + 2 ≤ 2 ^ 30) :
    Scanning s sep st.grow ∧ (st.tokens.length : ℤ) + 2 ≤ st.grow.slots ∧ st.grow.tokens = st.tokens ∧
      st.grow.start = st.start ∧ st.grow.j = st.j := by
  have hstart := h.start_le
  have hj := h.j_le
  have hcount := h.count
  have hroom := h.room
  rw [SplitState.grow]
  by_cases hfull : st.slots < st.tokens.length + 2
  · rw [if_pos hfull, toInt_of_range (by omega) (by omega)]
    refine ⟨⟨hstart, hj, h.unseen, h.found, h.free, hcount, ?_, Or.inr ?_⟩, ?_, rfl, rfl, rfl⟩ <;> dsimp only <;>
      omega
  · rw [if_neg hfull]
    exact ⟨h, by omega, rfl, rfl, rfl⟩

theorem Scanning.store (h : Scanning s sep st) {n : ℕ} (hn : st.start + n ≤ s.length) :
    st.store s n = some (st.tokens ++ [(s.drop st.start).take n]) := if_pos ⟨h.room, hn⟩

theorem Scanning.pass (h : Scanning s sep st) (hsep : sep ≠ []) (hin : st.j + sep.length ≤ s.length)
    (hlt : s.length + 2 ≤ 2 ^ 30) :
    ∃ st', splitPass s sep st = some st' ∧ Scanning s sep st' := by
  have hpos := List.length_pos_of_ne_nil hsep
  obtain ⟨hgrow, hslots, htokens, hstart, hj⟩ := h.grow hlt
  have hle := h.start_le
  rw [splitPass, foundAt_eq hin, Option.bind_some]
  by_cases hfound : sep <+: s.drop st.j
  · obtain ⟨rest, hrest⟩ := hfound
    set t := (s.drop st.start).take (st.j - st.start) with ht
    -- the text from `start` on is the piece, the separator and the rest
    have hsplit : s.drop st.start = t ++ sep ++ rest := by
      rw [ht, List.append_assoc, hrest, show st.j = st.start + (st.j - st.start) by omega, ← List.drop_drop,
        Nat.add_sub_cancel_left, List.take_append_drop]
    have hdrop : s.drop (st.j + sep.length) = rest := by rw [← List.drop_drop, ← hrest, List.drop_left]
    have htlen : t.length = st.j - st.start := by
      rw [ht, List.length_take, List.length_drop]
      omega
    have hfree : Split.Free sep t := by
      refine Split.Free.of_drop rest fun i hi => ?_
      rw [← hsplit, List.drop_drop]
      exact h.unseen _ (by omega) (by omega)
    rw [if_pos (decide_eq_true ⟨rest, hrest⟩), hgrow.store (by omega), hstart, htokens, Option.map_some]
    refine ⟨_, rfl, ⟨?_, ?_, ?_, ?_, ?_, ?_, ?_, ?_⟩⟩
    · dsimp only; omega
    · dsimp only; omega
    · dsimp only
      intro i hi hi'
      omega
    · dsimp only
      rw [hdrop, List.map_append, List.flatten_append, List.map_singleton, List.flatten_singleton,
        List.append_assoc, ← hsplit]
      exact h.found
    · dsimp only
      intro u hu
      rcases List.mem_append.1 hu with hu | hu
      · exact h.free u hu
      · rw [List.mem_singleton.1 hu]
        exact hfree
    · have := h.count
      rw [List.length_append, List.length_singleton]
      dsimp only
      omega
    · rw [List.length_append, List.length_singleton]
      dsimp only
      omega
    · have := hgrow.slots
      rw [htokens] at this
      rw [List.length_append, List.length_singleton]
      dsimp only
      omega
  · rw [if_neg fun h => hfound (of_decide_eq_true h)]
    refine ⟨_, rfl, ⟨?_, ?_, ?_, hgrow.found, hgrow.free, hgrow.count, hgrow.room, hgrow.slots⟩⟩
    · dsimp only; omega
    · dsimp only; omega
    · intro i hi hi'
      dsimp only at hi hi'
      rcases Nat.lt_or_eq_of_le (Nat.le_of_lt_succ hi') with hlt | rfl
      · exact h.unseen i (by omega) hlt
      · exact hfound

theorem Scanning.loop (h : Scanning s sep st) (hsep : sep ≠ []) (hlt : s.length + 2 ≤ 2 ^ 30) :
    ∃ st', splitLoop s sep st = some st' ∧ Scanning s sep st' ∧ s.length < st'.j + sep.length := by
  induction st using splitLoop.induct s sep with
  | case1 st hin hpass =>
    -- a pass does not fault
    obtain ⟨st', hst', -⟩ := h.pass hsep hin.1 hlt
    rw [hpass] at hst'
    cases hst'
  | case2 st hin st' hpass ih =>
    obtain ⟨st'', hst'', hnext⟩ := h.pass hsep hin.1 hlt
    cases hpass.symm.trans hst''
    obtain ⟨end', hloop, hend⟩ := ih hnext
    refine ⟨end', ?_, hend⟩
    rw [splitLoop, dif_pos hin]
    split
    · rename_i hnone
      cases hnone.symm.trans hpass
    · rename_i st₂ hsome
      cases hsome.symm.trans hpass
      exact hloop
  | case3 st hin =>
    refine ⟨st, ?_, h, by_contra fun hle => hin ⟨by omega, hsep⟩⟩
    rw [splitLoop, dif_neg hin]

/-- The pieces of a text that is not empty. -/
theorem sdssplitlen_pieces (hsep : sep ≠ []) (hs : s ≠ []) (hlt : s.length + 2 ≤ 2 ^ 30) :
    ∃ ts, sdssplitlen s sep = some (some ts) ∧ Split.IsSplit sep ts ∧ sep.intercalate ts = s := by
  have hinit : Scanning s sep ⟨[], 5, 0, 0⟩ :=
    ⟨le_rfl, Nat.zero_le _, fun i _ hi => absurd hi (Nat.not_lt_zero i),
      rfl, by simp, le_rfl, by decide, Or.inl rfl⟩
  obtain ⟨st, hloop, h, hend⟩ := hinit.loop hsep hlt
  have hstart := h.start_le
  have hj := h.j_le
  set last := s.drop st.start with hlastdef
  have hlast : ¬ sep <:+: last := by
    rintro ⟨a, b, hab⟩
    have hlen := congrArg List.length hab
    rw [List.length_append, List.length_append, hlastdef, List.length_drop] at hlen
    refine h.unseen (st.start + a.length) (by omega) (by omega) ?_
    rw [← List.drop_drop, ← hlastdef, ← hab, List.append_assoc, List.drop_left]
    exact List.prefix_append _ _
  refine ⟨st.tokens ++ [last], ?_, Split.IsSplit.of_found h.free hlast,
    Split.intercalate_found.trans h.found.symm⟩
  rw [sdssplitlen, if_neg hsep, if_neg hs, hloop, Option.bind_some, h.store (by omega), Option.map_some,
    List.take_of_length_le (by rw [List.length_drop])]

/-- **`sdssplitlen` finds the pieces of a text**: joined with the separator they are the text, and no separator
was missed. An empty text has no piece, and with an empty separator there is no result. Nothing is read or
written outside of the text and the array. -/
theorem sdssplitlen_iff (s sep : List UInt8) (hlt : s.length + 2 ≤ 2 ^ 30) :
    (sdssplitlen s sep).isSome = true ∧
      ∀ ts, sdssplitlen s sep = some (some ts) ↔
        sep ≠ [] ∧ (s = [] ∧ ts = [] ∨ s ≠ [] ∧ Split.IsSplit sep ts ∧ sep.intercalate ts = s) := by
  by_cases hsep : sep = []
  · have hnull : sdssplitlen s sep = some none := if_pos hsep
    rw [hnull]
    exact ⟨rfl, fun ts => iff_of_false (by simp) fun h => h.1 hsep⟩
  by_cases hs : s = []
  · have hempty : sdssplitlen s sep = some (some []) := by rw [sdssplitlen, if_neg hsep, if_pos hs]
    rw [hempty]
    refine ⟨rfl, fun ts => ?_⟩
    simp [hsep, hs, eq_comm]
  obtain ⟨ts', hresult, hsplit, hjoin⟩ := sdssplitlen_pieces hsep hs hlt
  rw [hresult]
  refine ⟨rfl, fun ts => ?_⟩
  rw [Option.some.injEq, Option.some.injEq]
  constructor
  · rintro rfl
    exact ⟨hsep, Or.inr ⟨hs, hsplit, hjoin⟩⟩
  · rintro ⟨-, ⟨hnil, -⟩ | ⟨-, hts, heq⟩⟩
    · exact absurd hnil hs
    · exact hsplit.unique hts (hjoin.trans heq.symm)

end Splitting

/-- A separator of two bytes, found twice and once half. -/
theorem sdssplitlen_iff_dashes :
    sdssplitlen [45, 45, 1, 45, 2, 45, 45] [45, 45] = some (some [[], [1, 45, 2], []]) :=
  ((sdssplitlen_iff [45, 45, 1, 45, 2, 45, 45] [45, 45] (by decide)).2 _).2
    ⟨by decide, Or.inr ⟨by decide, .cons (by decide) (.cons (by decide) (.last (by decide))), by decide⟩⟩

/-! ### `sdscatrepr` and `sdssplitargs` -/

/-- The call appends the text. -/
def Appends (op : SdsOp) (t : List UInt8) : Prop := op = .catlen t ∨ op = .catprintf t ∧ 0 ∉ t

/-- Calls that append, one after the other. -/
theorem SdsIs.appends {s : Sds} {c : List UInt8} (h : SdsIs s c) {ops : List (SdsOp × (ℕ → UInt8))}
    {ts : List (List UInt8)} (hops : List.Forall₂ Appends (ops.map Prod.fst) ts)
    (hlt : (c ++ ts.flatten).length + sdsMaxPrealloc < 2 ^ 31) :
    ∃ s', Lts.run SdsOp.exec s ops = some s' ∧ SdsIs s' (c ++ ts.flatten) := by
  induction ops generalizing s c ts with
  | nil =>
    cases hops
    rw [List.flatten_nil, List.append_nil]
    exact ⟨s, rfl, h⟩
  | cons l ops ih =>
    obtain ⟨op, fill⟩ := l
    cases hops with
    | @cons _ t _ ts hop hops =>
      rw [List.flatten_cons, ← List.append_assoc] at hlt ⊢
      have ht : c.length + t.length + sdsMaxPrealloc < 2 ^ 31 := by
        rw [List.length_append, List.length_append] at hlt
        omega
      obtain ⟨s', hstep, hs'⟩ : ∃ s', SdsOp.exec s (op, fill) = some s' ∧ SdsIs s' (c ++ t) := by
        rcases hop with rfl | ⟨rfl, hnul⟩
        · exact h.catlen fill ht
        · obtain ⟨s', hstep, hs'⟩ := h.catprintf fill ht
          rw [cStr_eq_self hnul] at hs'
          exact ⟨s', hstep, hs'⟩
      obtain ⟨s'', hrun, hs''⟩ := ih hs' hops hlt
      exact ⟨s'', Lts.run_cons.2 ⟨s', hstep, hrun⟩, hs''⟩

/-- The two digits of a byte. -/
def hexHigh (b : UInt8) : UInt8 := Printf.Radix.digit (.hex false) (b.toNat / 16)

def hexLow (b : UInt8) : UInt8 := Printf.Radix.digit (.hex false) (b.toNat % 16)

theorem hexByte_eq (b : UInt8) : hexByte b = [hexHigh b, hexLow b] := by
  have hb := b.toNat_lt
  rw [hexByte, hexHigh, hexLow]
  by_cases hlt : b.toNat < 16
  · rw [Printf.numeral_of_lt_base (.hex false) hlt, Nat.div_eq_of_lt hlt, Nat.mod_eq_of_lt hlt]
    rfl
  · have hhigh : b.toNat / 16 < 16 := by omega
    rw [Printf.numeral_of_base_le (.hex false) (Nat.le_of_not_lt hlt)]
    dsimp only [Printf.Radix.base]
    rw [Printf.numeral_of_lt_base (.hex false) hhigh]
    rfl

/-- They are read back. -/
theorem hex_read (b : UInt8) :
    isHexDigit (hexHigh b) = true ∧ isHexDigit (hexLow b) = true ∧
      hexDigitToInt (hexHigh b) * 16 + hexDigitToInt (hexLow b) = b := by
  have hall : ∀ k : Fin 256, isHexDigit (hexHigh (UInt8.ofNat k)) = true ∧
      isHexDigit (hexLow (UInt8.ofNat k)) = true ∧
      hexDigitToInt (hexHigh (UInt8.ofNat k)) * 16 + hexDigitToInt (hexLow (UInt8.ofNat k)) =
        UInt8.ofNat k := by
    decide +kernel
  simpa using hall ⟨b.toNat, b.toNat_lt⟩

/-- What is written for a byte. -/
def escaped (b : UInt8) : List UInt8 :=
  if b = backslash ∨ b = doubleQuote then [backslash, b]
  else if b = 10 then [backslash, 110]
  else if b = 13 then [backslash, 114]
  else if b = 9 then [backslash, 116]
  else if b = 7 then [backslash, 97]
  else if b = 8 then [backslash, 98]
  else if isPrint b then [b]
  else backslash :: 120 :: hexByte b

theorem escaped_ne_zero (b : UInt8) : 0 ∉ escaped b := by
  have hhex : 0 ∉ hexByte b := by
    obtain ⟨hhigh, hlow, -⟩ := hex_read b
    rw [hexByte_eq, List.mem_cons, List.mem_singleton]
    rintro (h | h)
    · rw [← h] at hhigh
      exact absurd hhigh (by decide)
    · rw [← h] at hlow
      exact absurd hlow (by decide)
  rw [escaped]
  split_ifs with h1 h2 h3 h4 h5 h6 h7
  · rcases h1 with rfl | rfl <;> decide
  · decide
  · decide
  · decide
  · decide
  · decide
  · rw [List.mem_singleton]
    rintro rfl
    exact absurd h7 (by decide)
  · rw [List.mem_cons, List.mem_cons]
    rintro (h | h | h)
    · exact absurd h (by decide)
    · exact absurd h (by decide)
    · exact hhex h

theorem reprCall_appends (b : UInt8) : Appends (reprCall b) (escaped b) := by
  have hnul := escaped_ne_zero b
  rw [escaped] at hnul
  rw [reprCall, escaped]
  split_ifs at hnul ⊢ <;> first | exact Or.inl rfl | exact Or.inr ⟨rfl, hnul⟩

/-- An escape of one letter is read back, whatever stands behind it. -/
theorem getToken_escape {c : UInt8} (hc : c ≠ 120) (current q : List UInt8) :
    getToken .inq current (backslash :: c :: q) = getToken .inq (current ++ [unescape c]) q := by
  conv_lhs => unfold getToken
  rw [if_pos rfl]
  rcases q with _ | ⟨d, _ | ⟨e, q⟩⟩
  · rfl
  · rfl
  · exact if_neg fun h => hc h.1

/-- **A byte is read back.** -/
theorem getToken_escaped (b : UInt8) (current q : List UInt8) :
    getToken .inq current (escaped b ++ q) = getToken .inq (current ++ [b]) q := by
  rw [escaped]
  split_ifs with h1 h2 h3 h4 h5 h6 h7
  · rcases h1 with rfl | rfl
    · exact getToken_escape (by decide) current q
    · exact getToken_escape (by decide) current q
  · rw [h2]
    exact getToken_escape (by decide) current q
  · rw [h3]
    exact getToken_escape (by decide) current q
  · rw [h4]
    exact getToken_escape (by decide) current q
  · rw [h5]
    exact getToken_escape (by decide) current q
  · rw [h6]
    exact getToken_escape (by decide) current q
  · rw [List.singleton_append]
    conv_lhs => unfold getToken
    rw [if_neg fun h => h1 (Or.inl h), if_neg fun h => h1 (Or.inr h)]
  · obtain ⟨hhigh, hlow, hvalue⟩ := hex_read b
    rw [hexByte_eq]
    change getToken .inq current (backslash :: 120 :: hexHigh b :: hexLow b :: q) = _
    conv_lhs => unfold getToken
    dsimp only
    rw [if_pos rfl, if_pos ⟨rfl, hhigh, hlow⟩, hvalue]

theorem getToken_quoted (p current : List UInt8) {q : List UInt8} (hq : mayClose q = true) :
    getToken .inq current (p.flatMap escaped ++ doubleQuote :: q) = some (current ++ p, q) := by
  induction p generalizing current with
  | nil =>
    rw [List.flatMap_nil, List.nil_append, List.append_nil]
    unfold getToken
    rw [if_neg (by decide), if_pos rfl, if_pos hq]
  | cons b p ih =>
    rw [List.flatMap_cons, List.append_assoc, getToken_escaped, ih, List.append_assoc]
    rfl

/-- The text of an argument in quotes. -/
def quoted (p : List UInt8) : List UInt8 := doubleQuote :: (p.flatMap escaped ++ [doubleQuote])

/-- Its text, and that of the line. -/
def lineText : List (List UInt8) → List UInt8
  | [] => []
  | [arg] => quoted arg
  | arg :: args => quoted arg ++ 32 :: lineText args

theorem splitArgs_quoted (vector : List (List UInt8)) (arg : List UInt8) {q : List UInt8}
    (hq : mayClose q = true) :
    splitArgs vector (quoted arg ++ q) = splitArgs (vector ++ [arg]) q := by
  have hskip : (quoted arg ++ q).dropWhile isSpace = quoted arg ++ q := by
    rw [quoted, List.cons_append, List.dropWhile_cons_of_neg (by decide)]
  have htoken : getToken .no [] (quoted arg ++ q) = some (arg, q) := by
    rw [quoted, List.cons_append, getToken, if_neg (by decide), if_pos rfl, List.append_assoc]
    exact getToken_quoted arg [] hq
  rw [splitArgs, hskip, if_neg (by rw [quoted]; simp)]
  split
  · rename_i hnone
    rw [htoken] at hnone
    cases hnone
  · rename_i current rest hsome
    rw [htoken] at hsome
    cases hsome
    rfl

theorem splitArgs_line (vector args : List (List UInt8)) :
    splitArgs vector (lineText args) = .ok (vector ++ args) := by
  have hend : ∀ v, splitArgs v [] = .ok v := by
    intro v
    rw [splitArgs]
    exact if_pos rfl
  induction args generalizing vector with
  | nil => rw [lineText, hend, List.append_nil]
  | cons arg args ih =>
    cases args with
    | nil =>
      have hquoted := splitArgs_quoted vector arg (q := []) rfl
      rw [List.append_nil, hend] at hquoted
      exact hquoted
    | cons arg' args =>
      have hblank : ∀ v q, splitArgs v (32 :: q) = splitArgs v q := by
        intro v q
        rw [splitArgs, splitArgs, List.dropWhile_cons_of_pos (by decide)]
      change splitArgs vector (quoted arg ++ 32 :: lineText (arg' :: args)) = _
      rw [splitArgs_quoted vector arg rfl, hblank, ih, List.append_assoc]
      rfl

/-- The calls append the text together. -/
def AppendsAll (ops : List SdsOp) (t : List UInt8) : Prop := ∃ ts, List.Forall₂ Appends ops ts ∧ ts.flatten = t

theorem AppendsAll.append {ops ops' : List SdsOp} {t t' : List UInt8} (h : AppendsAll ops t)
    (h' : AppendsAll ops' t') :
    AppendsAll (ops ++ ops') (t ++ t') := by
  obtain ⟨ts, hops, rfl⟩ := h
  obtain ⟨ts', hops', rfl⟩ := h'
  exact ⟨ts ++ ts', List.rel_append hops hops', List.flatten_append⟩

theorem AppendsAll.catlen (t : List UInt8) : AppendsAll [.catlen t] t :=
  ⟨[t], .cons (Or.inl rfl) .nil, List.flatten_singleton⟩

theorem appendsAll_sdscatrepr (p : List UInt8) : AppendsAll (sdscatrepr p) (quoted p) := by
  have hbody : AppendsAll (p.map reprCall) (p.flatMap escaped) := by
    refine ⟨p.map escaped, ?_, rfl⟩
    rw [List.forall₂_map_left_iff, List.forall₂_map_right_iff]
    exact List.forall₂_same.2 fun b _ => reprCall_appends b
  exact (AppendsAll.catlen [doubleQuote]).append (hbody.append (AppendsAll.catlen [doubleQuote]))

theorem appendsAll_quotedLine (args : List (List UInt8)) : AppendsAll (quotedLine args) (lineText args) := by
  induction args with
  | nil => exact ⟨[], .nil, rfl⟩
  | cons arg args ih =>
    cases args with
    | nil => exact appendsAll_sdscatrepr arg
    | cons arg' args => exact (appendsAll_sdscatrepr arg).append ((AppendsAll.catlen [32]).append ih)

theorem quoted_length (p : List UInt8) : (quoted p).length ≤ 4 * p.length + 2 := by
  have hescaped : ∀ b, (escaped b).length ≤ 4 := by
    intro b
    rw [escaped, hexByte_eq]
    split_ifs <;> simp
  have hbody : (p.flatMap escaped).length ≤ 4 * p.length := by
    induction p with
    | nil => exact le_rfl
    | cons b p ih =>
      have := hescaped b
      rw [List.flatMap_cons, List.length_append, List.length_cons]
      omega
  rw [quoted, List.length_cons, List.length_append, List.length_singleton]
  omega

theorem lineText_length (args : List (List UInt8)) :
    (lineText args).length ≤ 4 * args.flatten.length + 3 * args.length := by
  induction args with
  | nil => exact le_rfl
  | cons arg args ih =>
    have hquoted := quoted_length arg
    rw [List.flatten_cons, List.length_append, List.length_cons]
    cases args with
    | nil =>
      change (quoted arg).length ≤ _
      omega
    | cons arg' args =>
      change (quoted arg ++ 32 :: lineText (arg' :: args)).length ≤ _
      rw [List.length_append, List.length_cons]
      omega

theorem lineText_ne_zero (args : List (List UInt8)) : 0 ∉ lineText args := by
  have hquoted : ∀ p, 0 ∉ quoted p := by
    intro p hmem
    rw [quoted, List.mem_cons, List.mem_append, List.mem_flatMap, List.mem_singleton] at hmem
    rcases hmem with h | ⟨b, -, hb⟩ | h
    · exact absurd h (by decide)
    · exact escaped_ne_zero b hb
    · exact absurd h (by decide)
  induction args with
  | nil => exact List.not_mem_nil
  | cons arg args ih =>
    cases args with
    | nil => exact hquoted arg
    | cons arg' args =>
      change 0 ∉ quoted arg ++ 32 :: lineText (arg' :: args)
      rw [List.mem_append, List.mem_cons]
      rintro (h | h | h)
      · exact hquoted arg h
      · exact absurd h (by decide)
      · exact ih h

/-- **Quoted arguments come back**: `sdssplitargs` reads a line that `sdscatrepr` has written, with all bytes of
each argument. -/
theorem quoted_args_round (args : List (List UInt8)) (ops : List (SdsOp × (ℕ → UInt8)))
    (hlt : 4 * args.flatten.length + 3 * args.length + sdsMaxPrealloc < 2 ^ 31)
    (hops : ops.map Prod.fst = quotedLine args) :
    ∃ s, Lts.run SdsOp.exec sdsempty ops = some s ∧
      sdssplitargs (cStr s.buf) = some ((args.length : ℤ), args) := by
  have hempty : SdsIs sdsempty [] := ⟨[], rfl, by decide⟩
  have hlen := lineText_length args
  obtain ⟨ts, hts, htext⟩ := appendsAll_quotedLine args
  obtain ⟨s, hrun, hs⟩ := hempty.appends (hops ▸ hts) (by rw [List.nil_append, htext]; omega)
  rw [List.nil_append, htext] at hs
  obtain ⟨rest, rfl, -⟩ := hs
  refine ⟨_, hrun, ?_⟩
  rw [cStr_append_nul rest (lineText_ne_zero args), sdssplitargs, splitArgs_line]
  rfl

/-- An argument with a quote, a backslash and bytes that are not printable, and an empty one. -/
theorem quoted_args_round_bytes :
    ∃ s, Lts.run SdsOp.exec sdsempty ((quotedLine [[34, 92, 0, 255], []]).map fun op => (op, fun _ => 7)) =
      some s ∧
      sdssplitargs (cStr s.buf) = some (2, [[34, 92, 0, 255], []]) :=
  quoted_args_round [[34, 92, 0, 255], []] ((quotedLine [[34, 92, 0, 255], []]).map fun op => (op, fun _ => 7))
    (by decide) (by rw [List.map_map]; exact List.map_id _)

end Spigeon
