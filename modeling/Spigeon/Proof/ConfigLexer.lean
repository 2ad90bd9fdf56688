import Spigeon.Spec.ConfigLexer
import Spigeon.Proof.Quote

/-!
# What the scanner returns

* `quotedLen_longest`: the match of a quoted value is the longest one of its pattern.
* `Scanner.step_shorter`: every match takes at least one byte, so the loop reads a file to its end.
* `keys_of_lexFile`: the keys of all tokens are made of letters, digits and underscores.
-/

namespace Spigeon

open Quoted

/-! ### Quoted values -/

/-- What is matched is a quoted value. -/
theorem quotedValue_take (text : List UInt8) : QuotedValue (text.take (quotedLen text)) := by
  fun_induction quotedLen text with
  | case1 => exact .nil
  | case2 b hb => exact .nil
  | case3 b hb =>
    rw [not_or, not_or] at hb
    exact .plain hb.1 hb.2.1 hb.2.2 .nil
  | case4 c rest ih => exact .escape ih
  | case5 b c rest hb hend => exact .nil
  | case6 b c rest hb hend ih =>
    rw [not_or] at hend
    exact .plain hend.1 hb hend.2 ih

/-- A quoted value in front of a text is no longer than the match. -/
theorem length_le_quotedLen {v : List UInt8} (hv : QuotedValue v) (rest : List UInt8) :
    v.length ≤ quotedLen (v ++ rest) := by
  induction hn : v.length using Nat.strongRecOn generalizing v with
  | ind n ih =>
    subst hn
    rcases v with _ | ⟨b, v⟩
    · exact Nat.zero_le _
    by_cases hb : b = 92
    · subst hb
      obtain ⟨e, w, rfl, hw⟩ := hv.escaped
      have hrest := ih w.length (by simp only [List.length_cons]; omega) hw rfl
      rw [List.cons_append, List.cons_append, quotedLen, if_pos rfl]
      simp only [List.length_cons]
      omega
    · have hv' := hv.of_cons hb
      have hplain : b ≠ 34 ∧ b ≠ 10 := by
        cases hv with
        | plain h34 _ h10 _ => exact ⟨h34, h10⟩
        | escape => exact absurd rfl hb
        | hex => exact absurd rfl hb
        | octal => exact absurd rfl hb
      have hrest := ih v.length (by simp only [List.length_cons]; omega) hv' rfl
      have hno : ¬ (b = 34 ∨ b = 10) := by rintro (h | h); exacts [hplain.1 h, hplain.2 h]
      rw [List.cons_append]
      cases hvr : v ++ rest with
      | nil =>
        have : v = [] := (List.append_eq_nil_iff.1 hvr).1
        subst this
        rw [quotedLen, if_neg (by rintro (h | h | h); exacts [hplain.1 h, hb h, hplain.2 h])]
        exact le_rfl
      | cons c w =>
        rw [hvr] at hrest
        rw [quotedLen, if_neg hb, if_neg hno]
        simp only [List.length_cons]
        omega

/-- **The match of a quoted value is the longest one of the pattern.** -/
theorem quotedLen_longest (text : List UInt8) :
    QuotedValue (text.take (quotedLen text)) ∧
      ∀ n, n ≤ text.length → QuotedValue (text.take n) → n ≤ quotedLen text := by
  refine ⟨quotedValue_take text, fun n hn hv => ?_⟩
  have hle := length_le_quotedLen hv (text.drop n)
  rw [List.take_append_drop, List.length_take, Nat.min_eq_left hn] at hle
  exact hle

/-- What a match stands for is decoded in place, without an access outside of it. -/
theorem unquote_eq (text : List UInt8) :
    unquote (text.take (quotedLen text)) = codeBytes (text.take (quotedLen text)) := by
  obtain ⟨r, old, hparse, hbuf, hcur, -⟩ := parseQuote_eq (quotedValue_take text) 0 []
  unfold unquote
  rw [hparse, Option.elim_some, hbuf, hcur, List.take_left]

/-! ### One match -/

namespace Scanner

variable {s : Scanner} {b : UInt8} {rest : List UInt8}

theorem behind_shorter (h : s.rest = b :: rest) {n : ℕ} (hn : 0 < n) (start : StartCond) :
    (s.behind n start).rest.length < s.rest.length := by
  show (s.rest.drop n).length < _
  rw [List.length_drop, h]
  simp only [List.length_cons]
  omega

theorem takeWhile_length_pos (hb : isKeyByte b = true) : 0 < ((b :: rest).takeWhile isKeyByte).length :=
  List.length_pos_of_ne_nil (takeWhile_ne_nil hb)

/-- **Every match takes at least one byte.** -/
theorem step_shorter {out : Scanner × Option LexerResult} (hst : s.step = some out) :
    out.1.rest.length < s.rest.length := by
  unfold Scanner.step at hst
  cases hrest : s.rest with
  | nil => rw [hrest] at hst; cases hst
  | cons b rest =>
    have hone : ∀ start, (s.behind 1 start).rest.length < s.rest.length := behind_shorter hrest Nat.one_pos
    rw [hrest] at hst
    simp only [Option.some.injEq] at hst
    rw [← hst, ← hrest]
    cases s.start with
    | initial =>
      dsimp only [stepInitial]
      split_ifs with h1 h2 h3 hb h4
      exacts [hone .group, hone .initial, hone .comment, behind_shorter hrest (takeWhile_length_pos hb) _,
        hone .initial, hone .initial]
    | afterKey key isArray =>
      dsimp only [stepAfterKey]
      split_ifs
      exacts [hone _, hone (.value key isArray), hone .initial, hone (.afterKey key isArray)]
    | value key isArray =>
      dsimp only [stepValue]
      split_ifs with h1 h2 h3 h4
      exacts [hone _, hone .initial, hone .comment, hone _, behind_shorter hrest (by simp) _]
    | quotedValue key isArray =>
      dsimp only [stepQuoted]
      split_ifs with h1
      exacts [hone _, behind_shorter hrest (Nat.pos_of_ne_zero h1) _]
    | comment => exact hone _
    | group =>
      dsimp only [stepGroup]
      split
      · exact hone .initial
      split
      · exact hone .group
      split
      · exact hone .group
      split
      next hb => exact behind_shorter hrest (takeWhile_length_pos hb) (if s.isArray then .groupFinish else .group)
      next => exact hone .group
    | groupFinish =>
      dsimp only
      split_ifs
      exacts [hone .initial, hone .groupFinish]

end Scanner

/-- The keys in the start condition are made of the bytes of the pattern. -/
def StartCond.KeyOK : StartCond → Prop
  | .afterKey key _ | .value key _ | .quotedValue key _ => ∀ b ∈ key.text, isKeyByte b = true
  | _ => True

/-- So is the key of a token. -/
def LexerResult.KeyOK : LexerResult → Prop
  | .token t => ∀ b ∈ t.key, isKeyByte b = true
  | .syntaxError _ => True

/-- The keys behind a match. -/
structure KeysKept (out : Scanner × Option LexerResult) : Prop where
  start : out.1.start.KeyOK
  result : ∀ r, out.2 = some r → r.KeyOK

namespace Scanner

theorem mem_takeWhile_key {b : UInt8} {l : List UInt8} (h : b ∈ l.takeWhile isKeyByte) : isKeyByte b = true :=
  List.mem_takeWhile_imp h

theorem keys_none {s : Scanner} (h : s.start.KeyOK) : KeysKept (s, none) := ⟨h, fun r hr => by cases hr⟩

theorem keys_fail (s : Scanner) (start : StartCond) (h : start.KeyOK) : KeysKept (s.fail start) :=
  ⟨h, fun r hr => by cases hr; trivial⟩

theorem keys_item (s : Scanner) (n : ℕ) (start : StartCond) (h : start.KeyOK) {key : LexKey}
    (hkey : ∀ c ∈ key.text, isKeyByte c = true) (isArray : Bool) (value : List UInt8) :
    KeysKept (s.item n start key isArray value) :=
  ⟨h, fun r hr => by cases hr; exact hkey⟩

theorem keys_initial (s : Scanner) (b : UInt8) (rest : List UInt8) : KeysKept (s.stepInitial b rest) := by
  unfold stepInitial
  split_ifs
  · exact keys_none trivial
  · exact keys_none trivial
  · exact keys_none trivial
  · exact keys_none fun c hc => mem_takeWhile_key hc
  · exact keys_none trivial
  · exact keys_fail s .initial trivial

theorem keys_afterKey (s : Scanner) {key : LexKey} (hkey : ∀ c ∈ key.text, isKeyByte c = true) (isArray : Bool)
    (b : UInt8) : KeysKept (s.stepAfterKey key isArray b) := by
  unfold stepAfterKey
  split_ifs
  · exact keys_none hkey
  · exact keys_none hkey
  · exact keys_fail s .initial trivial
  · exact keys_fail s (.afterKey key isArray) hkey

theorem keys_group (s : Scanner) (b : UInt8) (rest : List UInt8) : KeysKept (s.stepGroup b rest) := by
  unfold stepGroup
  split
  · exact keys_none trivial
  split
  · exact keys_none trivial
  split
  · exact keys_none trivial
  split
  · have hstart : (if s.isArray then StartCond.groupFinish else .group).KeyOK := by split <;> trivial
    refine ⟨hstart, fun r hr => ?_⟩
    cases hr
    exact fun c hc => mem_takeWhile_key hc
  · exact keys_fail s .group trivial

theorem keys_value (s : Scanner) {key : LexKey} (hkey : ∀ c ∈ key.text, isKeyByte c = true) (isArray : Bool)
    (b : UInt8) (rest : List UInt8) : KeysKept (s.stepValue key isArray b rest) := by
  unfold stepValue
  split_ifs
  · exact keys_none hkey
  · exact keys_item s 1 .initial trivial hkey _ _
  · exact keys_none trivial
  · exact keys_none hkey
  · exact keys_item s _ .comment trivial hkey _ _

theorem keys_quoted (s : Scanner) {key : LexKey} (hkey : ∀ c ∈ key.text, isKeyByte c = true) (isArray : Bool) :
    KeysKept (s.stepQuoted key isArray) := by
  unfold stepQuoted
  dsimp only
  split_ifs
  · exact keys_fail s (.quotedValue key isArray) hkey
  · exact keys_item s _ .comment trivial hkey _ _

theorem step_keys {s : Scanner} {out : Scanner × Option LexerResult} (hs : s.start.KeyOK)
    (hst : s.step = some out) : KeysKept out := by
  unfold Scanner.step at hst
  cases hrest : s.rest with
  | nil => rw [hrest] at hst; cases hst
  | cons b rest =>
    rw [hrest] at hst
    simp only [Option.some.injEq] at hst
    rw [← hst]
    cases hstart : s.start with
    | initial => exact keys_initial s b rest
    | afterKey key isArray => rw [hstart] at hs; exact keys_afterKey s hs isArray b
    | value key isArray => rw [hstart] at hs; exact keys_value s hs isArray b rest
    | quotedValue key isArray => rw [hstart] at hs; exact keys_quoted s hs isArray
    | comment =>
      refine keys_none (show (if b = 10 then StartCond.initial else .comment).KeyOK from ?_)
      split <;> trivial
    | group => exact keys_group s b rest
    | groupFinish =>
      dsimp only
      split <;> exact keys_none trivial

end Scanner

/-! ### Files -/

theorem lexLoop_keys (fuel : ℕ) : ∀ s : Scanner, s.start.KeyOK → ∀ r ∈ lexLoop fuel s, r.KeyOK := by
  induction fuel with
  | zero => intro s _ r hr; simp [lexLoop] at hr
  | succ fuel ih =>
    intro s hs r hr
    rw [lexLoop] at hr
    split at hr
    next => simp at hr
    next s' hst => exact ih s' (Scanner.step_keys hs hst).start r hr
    next s' t hst =>
      have hkept := Scanner.step_keys hs hst
      rcases List.mem_cons.1 hr with rfl | hr
      · exact hkept.result _ rfl
      · exact ih s' hkept.start r hr
    next n hst =>
      rw [List.mem_singleton.1 hr]
      trivial

/-- **The keys of a file are made of letters, digits and underscores.** -/
theorem keys_of_lexFile {text : List UInt8} {r : LexerResult} (h : r ∈ lexFile text) : r.KeyOK :=
  lexLoop_keys text.length { rest := text } trivial r h

theorem lexLoop_length_le (fuel : ℕ) : ∀ s : Scanner, (lexLoop fuel s).length ≤ fuel := by
  induction fuel with
  | zero => intro s; exact le_rfl
  | succ fuel ih =>
    intro s
    rw [lexLoop]
    split
    next => exact Nat.zero_le _
    next s' _ => exact (ih s').trans (Nat.le_succ _)
    next s' t _ => exact Nat.succ_le_succ (ih s')
    next => exact Nat.succ_le_succ (Nat.zero_le _)

/-- Any fuel that is enough gives the same. -/
theorem lexLoop_eq (m : ℕ) : ∀ (n : ℕ) (s : Scanner), s.rest.length ≤ m → s.rest.length ≤ n →
    lexLoop m s = lexLoop n s := by
  have hend : ∀ (n : ℕ) (s : Scanner), s.rest.length ≤ 0 → lexLoop n s = [] := by
    intro n s hs
    have hstep : s.step = none := by
      unfold Scanner.step
      rw [List.length_eq_zero_iff.1 (Nat.le_zero.1 hs)]
    cases n with
    | zero => rfl
    | succ n => rw [lexLoop, hstep]
  induction m with
  | zero => intro n s hs _; rw [hend 0 s hs, hend n s hs]
  | succ m ih =>
    intro n s hm hn
    cases n with
    | zero => rw [hend _ s hn, hend 0 s hn]
    | succ n =>
      have hrest : ∀ out, s.step = some out → lexLoop m out.1 = lexLoop n out.1 := by
        intro out hst
        have := Scanner.step_shorter hst
        exact ih n out.1 (by omega) (by omega)
      rw [lexLoop, lexLoop]
      split
      next => rfl
      next s' hst => exact hrest (s', none) hst
      next s' t hst => rw [hrest (s', some (.token t)) hst]
      next => rfl

theorem lexFile_length_le (text : List UInt8) : (lexFile text).length ≤ text.length := lexLoop_length_le _ _

end Spigeon
