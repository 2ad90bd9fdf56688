import Mathlib.Data.Int.Notation
import Mathlib.Data.Nat.Notation
import Mathlib.Logic.Function.Basic

/-!
# The tree of a configuration file

`config.c` of `new-config`: the nodes with their links, the parser of the token sequence, the destruction
of a tree and the life of a `config_t`. Nodes are objects of a heap and pointers are their numbers in the
order of allocation, which are never used twice. An access to a node that was freed or through a NULL
pointer is `none`.

What the lexer returns is given, and so is which calls of `calloc` fail. A node's type is set right
after the allocation, and its key lives and dies with it.
-/

namespace Spigeon

/-- `config_node_type_t`. -/
inductive NodeType
  | group
  | array
  | item
deriving DecidableEq, Repr

/-- `config_node_t`. -/
structure ConfigTreeNode where
  type : NodeType
  parent : Option ℕ := none
  prevSibling : Option ℕ := none
  nextSibling : Option ℕ := none
  firstChild : Option ℕ := none
  lastChild : Option ℕ := none
  key : Option (List UInt8) := none
  value : Option (List UInt8) := none
  lineno : ℕ := 0
  length : ℕ := 0
  index : ℕ := 0
deriving DecidableEq, Repr

/-- The live nodes, the number of the next one, and the nodes that were freed. -/
structure ConfigHeap where
  node : ℕ → Option ConfigTreeNode
  next : ℕ
  freed : List ℕ

namespace ConfigHeap

def empty : ConfigHeap := ⟨fun _ => none, 0, []⟩

def alloc (h : ConfigHeap) (n : ConfigTreeNode) : ConfigHeap :=
  { h with node := Function.update h.node h.next (some n), next := h.next + 1 }

def modify (h : ConfigHeap) (a : ℕ) (f : ConfigTreeNode → ConfigTreeNode) : Option ConfigHeap :=
  (h.node a).map fun n => { h with node := Function.update h.node a (some (f n)) }

def free (h : ConfigHeap) (a : ℕ) : Option ConfigHeap :=
  (h.node a).map fun _ => { h with node := Function.update h.node a none, freed := h.freed ++ [a] }

/-- `add_child`. -/
def addChild (h : ConfigHeap) (parent child : ℕ) : Option ConfigHeap := do
  let h ← h.modify child fun n => { n with parent := some parent }
  let p ← h.node parent
  let h ←
    if p.firstChild = none then do
      let h ← h.modify parent fun n => { n with firstChild := some child, lastChild := some child }
      h.modify child fun n => { n with prevSibling := none, nextSibling := none }
    else do
      let h ← h.modify child fun n => { n with prevSibling := p.lastChild, nextSibling := none }
      let last ← p.lastChild
      let h ← h.modify last fun n => { n with nextSibling := some child }
      h.modify parent fun n => { n with lastChild := some child }
  let p ← h.node parent
  let h ← h.modify child fun n => { n with index := p.length }
  h.modify parent fun n => { n with length := n.length + 1 }

/-- The loop of `find_child`. It meets each node at most once. -/
def findFrom (h : ConfigHeap) (key : List UInt8) : ℕ → Option ℕ → Option (Option ℕ)
  | _, none => some none
  | 0, some _ => none
  | fuel + 1, some cur => do
    let n ← h.node cur
    if n.key.getD [] = key then some (some cur) else findFrom h key fuel n.nextSibling

/-- `find_child`, of a parent that is not NULL. -/
def findChild (h : ConfigHeap) (parent : ℕ) (key : List UInt8) : Option (Option ℕ) := do
  let n ← h.node parent
  h.findFrom key h.next n.firstChild

/-- `cur = cur->parent`, and once more if that is an array. -/
def up (h : ConfigHeap) (cur : ℕ) : Option ℕ := do
  let n ← h.node cur
  let p ← n.parent
  let m ← h.node p
  if m.type = .array then m.parent else some p

/-- `while (cur_level > output.level)`. -/
def climb (h : ConfigHeap) : ℕ → ℕ → Option ℕ
  | 0, cur => some cur
  | n + 1, cur => do
    let cur ← h.up cur
    h.climb n cur

/-- `if (node->first_child)` of `config_node_destroy`: the children are put behind `last`. -/
def linkChildren (h : ConfigHeap) (n : ConfigTreeNode) (last : ℕ) : Option (ConfigHeap × ℕ) :=
  match n.firstChild with
  | none => some (h, last)
  | some first => do
    let h ← h.modify last fun m => { m with nextSibling := some first }
    let last ← n.lastChild
    some (h, last)

/-- `while (node)` of `config_node_destroy`. -/
def destroyLoop : ℕ → ConfigHeap → Option ℕ → ℕ → Option ConfigHeap
  | _, h, none, _ => some h
  | 0, _, some _, _ => none
  | fuel + 1, h, some node, last => do
    let n ← h.node node
    let (h, last) ← h.linkChildren n last
    -- `last` may be `node` itself
    let n ← h.node node
    let h ← h.free node
    destroyLoop fuel h n.nextSibling last

/-- `config_node_destroy`. -/
def nodeDestroy (h : ConfigHeap) (node : ℕ) : Option ConfigHeap := destroyLoop h.next h (some node) node

end ConfigHeap

/-! ### Tokens -/

inductive TokenType
  | group
  | item
deriving DecidableEq, Repr

/-- `lexer_output_t`. The pattern of a key is not empty. -/
structure LexerOutput where
  type : TokenType
  isArray : Bool
  level : ℕ
  key : List UInt8
  value : List UInt8
  lineno : ℕ
  key_ne : key ≠ []

/-- What `lexer_next` returns before the end: a token, or `-1`. -/
inductive LexerResult
  | token (t : LexerOutput)
  | syntaxError (lineno : ℕ)

/-- The errors of the parser, each with what its message names. -/
inductive ConfigError
  | system (errno : ℕ)
  | syntaxError (lineno : ℕ)
  | defined (lineno : ℕ) (key : List UInt8) (first : ℕ)
  | groupLevel (lineno : ℕ)
deriving DecidableEq, Repr

def ENOMEM : ℕ := 12

/-! ### The parser -/

/-- The variables of `config_parse_file`, and the number of calls of `calloc`. -/
structure ParseState where
  heap : ConfigHeap
  calls : ℕ
  cur : ℕ
  stackTop : ℕ
  topLevel : ℤ

/-- An error goes to `error` with the state as it is. -/
abbrev ParseM := ExceptT (ConfigError × ParseState) Option

section Parser

variable (calloc : ℕ → Bool)

/-- `new_config_node`, `copy_output_node` and `add_child`. -/
def addNode (type : NodeType) (key : List UInt8) (t : LexerOutput) (parent : ℕ) (s : ParseState) :
    ParseM (ℕ × ParseState) :=
  if calloc s.calls then do
    let node := s.heap.next
    let h := s.heap.alloc {
      type := type
      key := some key
      value := if type = .item then some t.value else none
      lineno := t.lineno }
    let h ← h.addChild parent node
    return (node, { s with heap := h, calls := s.calls + 1 })
  else throw (.system ENOMEM, s)

/-- The array of an item: the node `tmp` that has its key, or a new one. -/
def itemArray (t : LexerOutput) (tmp : Option ℕ) (s : ParseState) : ParseM (ℕ × ParseState) :=
  match tmp with
  | none => addNode calloc .array t.key t s.cur s
  | some tmp => do
    let n ← s.heap.node tmp
    if n.type = .array then pure (tmp, s) else throw (.defined t.lineno t.key n.lineno, s)

/-- The branch `TOKEN_TYPE_ITEM`. -/
def parseItem (t : LexerOutput) (s : ParseState) : ParseM ParseState := do
  let tmp ← s.heap.findChild s.cur t.key
  if t.isArray then do
    let (parent, s) ← itemArray calloc t tmp s
    -- elements have an empty key
    let (_, s) ← addNode calloc .item [] t parent s
    pure s
  else
    match tmp with
    | some tmp => do
      let n ← s.heap.node tmp
      throw (.defined t.lineno t.key n.lineno, s)
    | none => do
      let (_, s) ← addNode calloc .item t.key t s.cur s
      pure s

/-- The array of a header: the node `tmp` that has its key, of any type, or a new one. -/
def headerArray (t : LexerOutput) (cur : ℕ) (tmp : Option ℕ) (s : ParseState) :
    ParseM (ℕ × ParseState) :=
  match tmp with
  | none => addNode calloc .array t.key t cur s
  | some tmp => pure (tmp, s)

/-- A new group becomes the top of the stack. -/
def pushGroup (key : List UInt8) (t : LexerOutput) (parent : ℕ) (s : ParseState) : ParseM ParseState := do
  let (node, s) ← addNode calloc .group key t parent s
  pure { s with cur := node, stackTop := node, topLevel := t.level }

/-- The branch of a different node. -/
def openGroup (t : LexerOutput) (cur : ℕ) (s : ParseState) : ParseM ParseState := do
  let tmp ← s.heap.findChild cur t.key
  if t.isArray then do
    let (parent, s) ← headerArray calloc t cur tmp s
    pushGroup calloc [] t parent s
  else
    match tmp with
    | none => pushGroup calloc t.key t cur s
    | some tmp => do
      let n ← s.heap.node tmp
      if n.type = .group then
        -- neither `cur` nor the stack is moved to the group
        pure { s with cur := cur }
      else throw (.defined t.lineno t.key n.lineno, s)

/-- The branch `TOKEN_TYPE_GROUP`. -/
def parseGroup (t : LexerOutput) (s : ParseState) : ParseM ParseState :=
  if t.level > s.topLevel + 1 then throw (.groupLevel t.lineno, s)
  else do
    let cur ← s.heap.climb (s.topLevel - t.level).toNat s.stackTop
    -- `cur_level == output.level` after the loop
    if t.level ≤ s.topLevel then do
      let n ← s.heap.node cur
      if t.isArray ∨ n.key.getD [] ≠ t.key then do
        let cur ← s.heap.up cur
        openGroup calloc t cur s
      else pure { s with cur := cur }
    else openGroup calloc t cur s

/-- A round of the loop with a token. -/
def parseToken (t : LexerOutput) (s : ParseState) : ParseM ParseState :=
  match t.type with
  | .item => parseItem calloc t s
  | .group => parseGroup calloc t s

/-- `while ((ret = lexer_next(l, &output)))`. -/
def parseLoop : List LexerResult → ParseState → ParseM ParseState
  | [], s => pure s
  | .syntaxError lineno :: _, s => throw (.syntaxError lineno, s)
  | .token t :: rest, s => do
    let s ← parseToken calloc t s
    parseLoop rest s

end Parser

/-- A call of `config_parse_file`: the errors of `lexer_init` and `lexer_setfile`, what `lexer_next` returns, and
which calls of `calloc` succeed. -/
structure ParseCall where
  initError : Option ℕ := none
  setfileError : Option ℕ := none
  results : List LexerResult
  calloc : ℕ → Bool := fun _ => true

/-- The state before the first token. -/
def ParseState.init (h : ConfigHeap) : ParseState where
  heap := h.alloc { type := .group }
  calls := 1
  cur := h.next
  stackTop := h.next
  topLevel := -1

/-- The label `error`. -/
def parseError (root : ℕ) (e : ConfigError) (h : ConfigHeap) :
    Option (ConfigHeap × Except ConfigError ℕ) :=
  (h.nodeDestroy root).map fun h => (h, .error e)

/-- `config_parse_file`. -/
def configParseFile (c : ParseCall) (h : ConfigHeap) : Option (ConfigHeap × Except ConfigError ℕ) :=
  if c.calloc 0 then
    let root := h.next
    let s := ParseState.init h
    match c.initError, c.setfileError with
    | some errno, _ => (s.heap.free root).map fun h => (h, .error (.system errno))
    | none, some errno => parseError root (.system errno) s.heap
    | none, none =>
      (parseLoop c.calloc c.results s).run.bind fun r =>
        match r with
        | .ok s => some (s.heap, .ok root)
        | .error (e, s) => parseError root e s.heap
  else some (h, .error (.system ENOMEM))

/-! ### `config_t` -/

/-- `config_t`. -/
structure Config where
  root : Option ℕ
  errmsg : Option ConfigError

/-- `config_init`. -/
def configInit : Config := ⟨none, none⟩

/-- `config_node_destroy` of a pointer that may be NULL. -/
def destroyRoot (root : Option ℕ) (h : ConfigHeap) : Option ConfigHeap :=
  root.elim (some h) h.nodeDestroy

/-- `config_read_file`. -/
def configReadFile (c : ParseCall) (config : Config) (h : ConfigHeap) :
    Option (ConfigHeap × Config × ℤ) := do
  let h ← destroyRoot config.root h
  let (h, ret) ← configParseFile c h
  match ret with
  | .ok root => return (h, { config with root := some root }, 0)
  -- `root` still points to the tree that was destroyed
  | .error e => return (h, { config with errmsg := some e }, -1)

/-- `config_destroy`. -/
def configDestroy (config : Config) (h : ConfigHeap) : Option ConfigHeap := destroyRoot config.root h

/-- `config_root`. -/
def configRoot (config : Config) : Option ℕ := config.root

/-- A `config_t` and the heap that its trees live in. -/
structure ConfigState where
  heap : ConfigHeap
  config : Config

def ConfigState.init : ConfigState := ⟨.empty, configInit⟩

/-- The object after a call of `config_read_file`. -/
def ConfigState.readFile (s : ConfigState) (c : ParseCall) : Option ConfigState :=
  (configReadFile c s.config s.heap).map fun (h, config, _) => ⟨h, config⟩

end Spigeon
