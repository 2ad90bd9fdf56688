import Spigeon.Lib.CStr

/-!
# Items of the configuration file

`find_command`, `parse_conf` and `load_conf_file` of `util/config_file.cpp`, with the
tokenizer `sdssplitargs` of `util/sds.cpp`. A C string is the list of its bytes without the
terminator, so the end of the list is the byte 0 that the code tests for. An access to
the argument vector outside its entries is `none`.
-/

namespace Spigeon

open CStr

/-! ### The tokenizer -/

def isHexDigit (c : UInt8) : Bool :=
  (48 ≤ c && c ≤ 57) || (97 ≤ c && c ≤ 102) || (65 ≤ c && c ≤ 70)

def hexDigitToInt (c : UInt8) : UInt8 :=
  if 48 ≤ c ∧ c ≤ 57 then c - 48
  else if 97 ≤ c ∧ c ≤ 102 then c - 87
  else if 65 ≤ c ∧ c ≤ 70 then c - 55
  else 0

/-- What a letter stands for behind a backslash in double quotes. -/
def unescape (c : UInt8) : UInt8 :=
  if c = 110 then 10 -- \n
  else if c = 114 then 13 -- \r
  else if c = 116 then 9 -- \t
  else if c = 98 then 8 -- \b
  else if c = 97 then 7 -- \a
  else c

/-- The flags `inq` and `insq` of the token loop. -/
inductive Quotes
  | no
  | inq
  | insq
deriving DecidableEq, Repr

def backslash : UInt8 := 92

def doubleQuote : UInt8 := 34

def singleQuote : UInt8 := 39

/-- What ends a token outside quotes: blank, `\n`, `\r`, `\t`. -/
def endsToken (b : UInt8) : Bool := b = 32 || b = 10 || b = 13 || b = 9

/-- A closing quote must be followed by a space or nothing at all. -/
def mayClose : List UInt8 → Bool
  | [] => true
  | b :: _ => isSpace b

/-- The loop that gets a token: `current` is what it has, the list what `p` points to. The
result is the token and the new `p`, or `none` for `goto err`. -/
def getToken : Quotes → List UInt8 → List UInt8 → Option (List UInt8 × List UInt8)
  | .no, current, [] => some (current, [])
  | .no, current, b :: p =>
    if endsToken b then some (current, p)
    else if b = doubleQuote then getToken .inq current p
    else if b = singleQuote then getToken .insq current p
    else getToken .no (current ++ [b]) p
  -- unterminated quotes
  | .inq, _, [] => none
  | .inq, current, b :: p =>
    if b = backslash then
      match p with
      -- at the end of the line the backslash stands for itself
      | [] => getToken .inq (current ++ [b]) []
      | [c] => getToken .inq (current ++ [unescape c]) []
      | [c, d] => getToken .inq (current ++ [unescape c]) [d]
      | c :: d :: e :: q =>
        -- `\xHH`
        if c = 120 ∧ isHexDigit d ∧ isHexDigit e then
          getToken .inq (current ++ [hexDigitToInt d * 16 + hexDigitToInt e]) q
        else getToken .inq (current ++ [unescape c]) (d :: e :: q)
    else if b = doubleQuote then if mayClose p then some (current, p) else none
    else getToken .inq (current ++ [b]) p
  | .insq, _, [] => none
  | .insq, current, b :: p =>
    if b = backslash then
      match p with
      | [] => getToken .insq (current ++ [b]) []
      | c :: q =>
        if c = singleQuote then getToken .insq (current ++ [c]) q
        else getToken .insq (current ++ [b]) (c :: q)
    else if b = singleQuote then if mayClose p then some (current, p) else none
    else getToken .insq (current ++ [b]) p

/-- A token takes something from the line. -/
theorem getToken_rest {q : Quotes} {current p t rest : List UInt8}
    (h : getToken q current p = some (t, rest)) : rest.length ≤ p.length - 1 := by
  -- every branch of the loop ends, fails, or goes on with a shorter `p`
  fun_induction getToken q current p <;> grind

/-- The outer loop of `sdssplitargs` from `p` on. A failure keeps what is in the vector. -/
def splitArgs (vector : List (List UInt8)) (p : List UInt8) :
    Except (List (List UInt8)) (List (List UInt8)) :=
  if p.dropWhile isSpace = [] then .ok vector
  else
    match _hget : getToken .no [] (p.dropWhile isSpace) with
    | none => .error vector
    | some (current, rest) => splitArgs (vector ++ [current]) rest
termination_by p.length
decreasing_by
  have hrest := getToken_rest _hget
  have hdrop : (p.dropWhile isSpace).length ≤ p.length := (List.dropWhile_suffix _).length_le
  have hpos : 0 < (p.dropWhile isSpace).length := List.length_pos_iff.mpr ‹_›
  omega

/-- `while (n--) sdsfree(argv[n]);` on a vector with `len` entries. The result is what the loop
leaves in `n`. -/
def freeFrom (len : ℕ) : ℕ → Option ℤ
  | 0 => some (-1)
  | n + 1 => if n < len then freeFrom len n else none

/-- The same loop entered with any `argc`. Below 0 its first access is already outside. -/
def freeArgs (argv : List (List UInt8)) (argc : ℤ) : Option ℤ :=
  if argc < 0 then none else freeFrom argv.length argc.toNat

/-- `sdssplitargs`: what it leaves in `*argc`, and the vector it returns. `NULL` is the vector
without entries. -/
def sdssplitargs (line : List UInt8) : Option (ℤ × List (List UInt8)) :=
  match splitArgs [] line with
  | .ok vector => some (vector.length, vector)
  | .error vector => (freeArgs vector vector.length).map fun argc => (argc, [])

/-! ### The command table -/

def configOk : ℤ := 0

def configError : ℤ := 1

/-- `command_t`. A handler gets `argc`, `argv`, the offset of its slot and the configuration, and
its result is `none` when it reads outside `argv`. Handlers are careful: they read only below
`argc`, which `sdssplitargs` leaves at the length of its vector, or at -1. -/
structure Command (C : Type) where
  name : List UInt8
  handler : ℤ → List (List UInt8) → ℕ → C → Option (C × ℤ)
  offset : ℕ
  careful : ∀ argv conf, handler argv.length argv offset conf ≠ none ∧
    handler (-1) [] offset conf ≠ none

/-- `find_command`. The table ends with its list, or at a command without a name. -/
def findCommand {C : Type} : List (Command C) → List UInt8 → Option (Command C)
  | [], _ => none
  | cp :: table, name =>
    if cp.name = [] then none
    else if caseEq name cp.name then some cp
    else findCommand table name

/-- `parse_conf` on a node with this key and value, either of which may be `NULL`. -/
def parseConf {C : Type} (table : List (Command C)) (key value : Option (List UInt8)) (conf : C) :
    Option (C × ℤ) :=
  match key, value with
  | none, _ => some (conf, configError)
  | some _, none => some (conf, configError)
  | some name, some line =>
    (sdssplitargs line).bind fun args =>
      match findCommand table name with
      | some cmd =>
        (cmd.handler args.1 args.2 cmd.offset conf).bind fun r =>
          -- the tokens are not freed here, only the vector
          if r.2 ≠ configOk then some (r.1, configError)
          else (freeArgs args.2 args.1).map fun _ => (r.1, configOk)
      | none => (freeArgs args.2 args.1).map fun _ => (conf, configOk)

/-! ### The file -/

/-- The key and the value of a `config_node_t`. A group or an array has no value. -/
structure ConfigNode where
  key : Option (List UInt8)
  value : Option (List UInt8)
deriving DecidableEq, Repr

/-- `parse_conf` on one sibling after the other, up to the first error. -/
def parseNodes {C : Type} (table : List (Command C)) : List ConfigNode → C → Option (C × ℤ)
  | [], conf => some (conf, configOk)
  | node :: rest, conf =>
    (parseConf table node.key node.value conf).bind fun r =>
      if r.2 ≠ configOk then some (r.1, configError) else parseNodes table rest r.1

/-- `load_conf_file`. The children of the root are `none` if `config_read_file` fails. -/
def loadConfFile {C : Type} (table : List (Command C)) (children : Option (List ConfigNode)) (conf : C) :
    Option (C × ℤ) :=
  match children with
  | none => some (conf, configError)
  -- `config_node_first_child` returns `NULL`
  | some [] => some (conf, configError)
  | some (node :: rest) => parseNodes table (node :: rest) conf

end Spigeon
