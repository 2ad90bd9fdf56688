import Spigeon.Spec.ConfigTree
import Spigeon.Spec.Quote

/-!
# The scanner of configuration files

`lexer.l` of `new-config`. In each start condition the scanner takes the longest match of the rules
that are active in it, and of two matches of one length that of the rule that stands first. The first
byte decides which rule that is, except between `quoted_value`, which matches the empty text too, and
`{ANY}`. In `GROUP_FINISH` a byte that no rule matches is copied to the output of the scanner, which is
not kept.

`output->key` and `output->is_array` are written when `AFTER_KEY` begins, so they belong to the start
conditions from there on. `yylineno` counts the newlines of all matches, that of the rule itself
included.
-/

namespace Spigeon

/-- `[a-zA-Z0-9_]`. -/
def isKeyByte (b : UInt8) : Bool :=
  (97 ≤ b && b ≤ 122) || (65 ≤ b && b ≤ 90) || (48 ≤ b && b ≤ 57) || b = 95

/-- A text that `{key}` matches. -/
structure LexKey where
  text : List UInt8
  ne_nil : text ≠ []
deriving DecidableEq, Repr

/-- The start conditions. -/
inductive StartCond
  | initial
  | afterKey (key : LexKey) (isArray : Bool)
  | value (key : LexKey) (isArray : Bool)
  | quotedValue (key : LexKey) (isArray : Bool)
  | comment
  | group
  | groupFinish
deriving DecidableEq, Repr

/-- The scanner: its start condition, `yyextra`, `yylineno`, `output->level`, and what is left of the file.
Nothing reads the level of an item, which is that of the last header. -/
structure Scanner where
  start : StartCond := .initial
  groupIndent : ℕ := 0
  isArray : Bool := false
  lineno : ℕ := 1
  level : ℕ := 0
  rest : List UInt8
deriving DecidableEq, Repr

/-- The length of the longest match of `quoted_value`. -/
def quotedLen : List UInt8 → ℕ
  | [] => 0
  | [b] => if b = 34 ∨ b = 92 ∨ b = 10 then 0 else 1
  | b :: c :: rest =>
    if b = 92 then quotedLen rest + 2
    else if b = 34 ∨ b = 10 then 0
    else quotedLen (c :: rest) + 1

/-- What `parse_quote(yytext, yyleng)` leaves of a match, which a zero byte ends. -/
def unquote (text : List UInt8) : List UInt8 :=
  (parseQuote (text ++ [0]) text.length).elim [] fun s => s.buf.take s.cur

namespace Scanner

/-- Behind a match of `n` bytes, in another start condition. -/
def behind (s : Scanner) (n : ℕ) (start : StartCond) : Scanner :=
  { s with start := start, lineno := s.lineno + (s.rest.take n).count 10, rest := s.rest.drop n }

/-- The action of `{ANY}`, and of a newline behind a key. -/
def fail (s : Scanner) (start : StartCond) : Scanner × Option LexerResult :=
  (s.behind 1 start, some (.syntaxError (s.behind 1 start).lineno))

/-- The action of an item with a value of `n` bytes. -/
def item (s : Scanner) (n : ℕ) (start : StartCond) (key : LexKey) (isArray : Bool) (value : List UInt8) :
    Scanner × Option LexerResult :=
  (s.behind n start,
    some (.token ⟨.item, isArray, s.level, key.text, value, (s.behind n start).lineno, key.ne_nil⟩))

theorem takeWhile_ne_nil {b : UInt8} {rest : List UInt8} (h : isKeyByte b = true) :
    (b :: rest).takeWhile isKeyByte ≠ [] := by
  rw [List.takeWhile_cons_of_pos h]
  exact List.cons_ne_nil _ _

/-- The rules of `INITIAL`. -/
def stepInitial (s : Scanner) (b : UInt8) (rest : List UInt8) : Scanner × Option LexerResult :=
  if b = 91 then ({ s.behind 1 .group with isArray := false, groupIndent := 0 }, none)
  else if b = 64 then ({ s.behind 1 .initial with isArray := true }, none)
  else if b = 35 then (s.behind 1 .comment, none)
  else if h : isKeyByte b = true then
    let key : LexKey := ⟨(b :: rest).takeWhile isKeyByte, takeWhile_ne_nil h⟩
    (s.behind key.text.length (.afterKey key s.isArray), none)
  else if b = 32 ∨ b = 9 ∨ b = 13 ∨ b = 10 then (s.behind 1 .initial, none)
  else s.fail .initial

/-- The rules of `AFTER_KEY`. -/
def stepAfterKey (s : Scanner) (key : LexKey) (isArray : Bool) (b : UInt8) : Scanner × Option LexerResult :=
  if b = 32 ∨ b = 9 then (s.behind 1 (.afterKey key isArray), none)
  else if b = 58 then ({ s.behind 1 (.value key isArray) with isArray := false }, none)
  else s.fail (if b = 10 then .initial else .afterKey key isArray)

/-- The rules of `GROUP`. Behind the key of an array the group is finished. -/
def stepGroup (s : Scanner) (b : UInt8) (rest : List UInt8) : Scanner × Option LexerResult :=
  if b = 93 then ({ s.behind 1 .initial with isArray := false }, none)
  else if b = 46 then ({ s.behind 1 .group with groupIndent := s.groupIndent + 1 }, none)
  else if b = 64 then ({ s.behind 1 .group with isArray := true }, none)
  else if h : isKeyByte b = true then
    let key := (b :: rest).takeWhile isKeyByte
    let s' := { s.behind key.length (if s.isArray then .groupFinish else .group) with level := s.groupIndent }
    (s', some (.token ⟨.group, s.isArray, s.groupIndent, key, [], s'.lineno, takeWhile_ne_nil h⟩))
  else s.fail .group

/-- The rules of `VALUE`. -/
def stepValue (s : Scanner) (key : LexKey) (isArray : Bool) (b : UInt8) (rest : List UInt8) :
    Scanner × Option LexerResult :=
  if b = 34 then (s.behind 1 (.quotedValue key isArray), none)
  else if b = 10 then s.item 1 .initial key isArray []
  else if b = 35 then (s.behind 1 .comment, none)
  else if b = 32 ∨ b = 9 then (s.behind 1 (.value key isArray), none)
  else
    let value := b :: rest.takeWhile fun c => c ≠ 35 ∧ c ≠ 10
    s.item value.length .comment key isArray value

/-- The rules of `QUOTED_VALUE`: an empty match is shorter than that of `{ANY}`. -/
def stepQuoted (s : Scanner) (key : LexKey) (isArray : Bool) : Scanner × Option LexerResult :=
  let n := quotedLen s.rest
  if n = 0 then s.fail (.quotedValue key isArray)
  else s.item n .comment key isArray (unquote (s.rest.take n))

/-- One match of the scanner and its action, `none` at the end of the file. -/
def step (s : Scanner) : Option (Scanner × Option LexerResult) :=
  match s.rest with
  | [] => none
  | b :: rest =>
    some <| match s.start with
    | .initial => s.stepInitial b rest
    | .afterKey key isArray => s.stepAfterKey key isArray b
    | .value key isArray => s.stepValue key isArray b rest
    | .quotedValue key isArray => s.stepQuoted key isArray
    | .comment => (s.behind 1 (if b = 10 then .initial else .comment), none)
    | .group => s.stepGroup b rest
    | .groupFinish =>
      if b = 93 then ({ s.behind 1 .initial with isArray := false }, none) else (s.behind 1 .groupFinish, none)

end Scanner

/-- What the calls of `lexer_next` return, up to the first error. Every match takes a byte, so `fuel` is
the number of bytes left. -/
def lexLoop : ℕ → Scanner → List LexerResult
  | 0, _ => []
  | fuel + 1, s =>
    match s.step with
    | none => []
    | some (s', none) => lexLoop fuel s'
    | some (s', some (.token t)) => .token t :: lexLoop fuel s'
    | some (_, some (.syntaxError lineno)) => [.syntaxError lineno]

/-- What the scanner returns for a file. -/
def lexFile (text : List UInt8) : List LexerResult := lexLoop text.length { rest := text }

/-- `config_parse_file` of a file that can be opened and has this text. -/
def configParseText (text : List UInt8) (h : ConfigHeap) : Option (ConfigHeap × Except ConfigError ℕ) :=
  configParseFile { results := lexFile text } h

end Spigeon
