import Spigeon.Lib.Forest
import Spigeon.Spec.ConfigTree

/-!
# The meaning of a configuration file

A configuration as a tree without links: its nodes in the order in which they were added, each with its
parent. `refToken` says what a token means: a header of level `L` selects a group below the one selected at
level `L - 1`, and an item goes to the group selected last. `Laid` says that a heap holds the nodes of
such a tree, with all their links.
-/

namespace Spigeon

/-- A node: its parent, and what it says. -/
structure ConfigEntry where
  parent : Option ℕ
  type : NodeType
  key : Option (List UInt8)
  value : Option (List UInt8)
  lineno : ℕ
deriving DecidableEq, Repr

/-- The nodes in the order in which they were added. -/
abbrev ConfigDoc := List ConfigEntry

namespace ConfigDoc

/-- A root. -/
def init : ConfigDoc := [⟨none, .group, none, none, 0⟩]

def par (d : ConfigDoc) (j : ℕ) : Option ℕ := d[j]?.bind ConfigEntry.parent

def typeOf (d : ConfigDoc) (j : ℕ) : Option NodeType := d[j]?.map ConfigEntry.type

def keyOf (d : ConfigDoc) (j : ℕ) : Option (List UInt8) := d[j]?.bind ConfigEntry.key

def linenoOf (d : ConfigDoc) (j : ℕ) : ℕ := d[j]?.elim 0 ConfigEntry.lineno

def kids (d : ConfigDoc) (p : ℕ) : List ℕ := Forest.kids d.par d.length p

/-- The siblings before a node. -/
def before (d : ConfigDoc) (j : ℕ) : List ℕ := Forest.before d.par d.length j

/-- The siblings after a node. -/
def after (d : ConfigDoc) (j : ℕ) : List ℕ := Forest.after d.par d.length j

/-- The child with a key. -/
def child (d : ConfigDoc) (p : ℕ) (key : List UInt8) : Option ℕ :=
  (d.kids p).find? fun j => (d.keyOf j).getD [] = key

/-- The entry of a token below `parent`. Only items have a value. -/
def entry (parent : ℕ) (type : NodeType) (key : List UInt8) (t : LexerOutput) : ConfigEntry :=
  ⟨some parent, type, some key, if type = .item then some t.value else none, t.lineno⟩

def add (d : ConfigDoc) (parent : ℕ) (type : NodeType) (key : List UInt8) (t : LexerOutput) : ConfigDoc :=
  d ++ [entry parent type key t]

/-- Sibling keys are distinct outside of arrays. -/
def KeysDistinct (d : ConfigDoc) : Prop :=
  ∀ p i j, d.typeOf p ≠ some .array → i ∈ d.kids p → j ∈ d.kids p → d.keyOf i = d.keyOf j → i = j

/-- Only groups and arrays have children. -/
def ItemsAreLeaves (d : ConfigDoc) : Prop := ∀ p, d.typeOf p = some .item → d.kids p = []

end ConfigDoc

/-! ### What tokens mean -/

/-- The tree, the group selected at each level, and the group selected last. -/
structure RefState where
  doc : ConfigDoc
  selected : ℕ → ℕ
  current : ℕ

def RefState.init : RefState := ⟨.init, fun _ => 0, 0⟩

/-- The group that a header of this level is looked up in: the root for level 0. -/
def RefState.above (r : RefState) : ℕ → ℕ
  | 0 => 0
  | level + 1 => r.selected level

def RefState.select (r : RefState) (level g : ℕ) : RefState :=
  { r with selected := Function.update r.selected level g, current := g }

/-- The array with the key of the token below `p`: one that exists, or a new one. -/
def refArray (d : ConfigDoc) (p : ℕ) (t : LexerOutput) : Option (ℕ × ConfigDoc) :=
  match d.child p t.key with
  | none => some (d.length, d.add p .array t.key t)
  | some a => if d.typeOf a = some .array then some (a, d) else none

/-- An item is added to the current group, or to an array in it. -/
def refItem (t : LexerOutput) (r : RefState) : Option RefState :=
  if t.isArray then
    (refArray r.doc r.current t).map fun (a, d) => { r with doc := d.add a .item [] t }
  else
    match r.doc.child r.current t.key with
    | none => some { r with doc := r.doc.add r.current .item t.key t }
    | some _ => none

/-- A header selects the group with its key, which is added if there is none. An array header adds a
group to the array with its key. -/
def refGroup (t : LexerOutput) (r : RefState) : Option RefState :=
  let p := r.above t.level
  if t.isArray then
    (refArray r.doc p t).map fun (a, d) =>
      { r with doc := d.add a .group [] t }.select t.level d.length
  else
    match r.doc.child p t.key with
    | none => some ({ r with doc := r.doc.add p .group t.key t }.select t.level r.doc.length)
    | some g => if r.doc.typeOf g = some .group then some (r.select t.level g) else none

/-- **The meaning of a token.** -/
def refToken (r : RefState) (t : LexerOutput) : Option RefState :=
  match t.type with
  | .item => refItem t r
  | .group => refGroup t r

/-! ### Trees in a heap -/

namespace ConfigDoc

/-- The node of an entry. The sibling links, the lengths and the indexes are those of the order of the
children. -/
def nodeAt (d : ConfigDoc) (base i : ℕ) (e : ConfigEntry) : ConfigTreeNode where
  type := e.type
  parent := e.parent.map (base + ·)
  prevSibling := (d.before i).getLast?.map (base + ·)
  nextSibling := (d.after i).head?.map (base + ·)
  firstChild := (d.kids i).head?.map (base + ·)
  lastChild := (d.kids i).getLast?.map (base + ·)
  key := e.key
  value := e.value
  lineno := e.lineno
  length := (d.kids i).length
  index := (d.before i).length

/-- The heap holds the tree, with its root at `base`. -/
def Laid (d : ConfigDoc) (base : ℕ) (h : ConfigHeap) : Prop :=
  ∀ i e, d[i]? = some e → h.node (base + i) = some (d.nodeAt base i e)

end ConfigDoc

end Spigeon
