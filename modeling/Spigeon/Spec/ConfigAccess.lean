import Spigeon.Lib.Strtok
import Spigeon.Spec.ConfigTree
import Spigeon.Spec.Options

/-!
# Reading a configuration tree

`config.c` of `new-config`: `config_lookup` and the functions that read the node it finds, and
`print_tree`. They read the heap of `Spigeon.Spec.ConfigTree` and leave it as it is. An access to a node that
was freed or through a NULL pointer is `none`, so a lookup that finds nothing is `some none`.
-/

namespace Spigeon

open CStr

/-! ### Lookup -/

namespace ConfigHeap

/-- `for(; index > 0 && node; index--, node = node->next_sibling);` -/
def nthSibling (h : ConfigHeap) : ℕ → Option ℕ → Option (Option ℕ)
  | 0, node => some node
  | _, none => some none
  | index + 1, some node => do
    let n ← h.node node
    nthSibling h index n.nextSibling

/-- One round of the loop of `config_lookup`. -/
def lookupStep (h : ConfigHeap) (node : ℕ) (key : List UInt8) : Option (Option ℕ) := do
  let n ← h.node node
  match n.type with
  | .array => h.nthSibling (atoi key).toNat n.firstChild
  | .group => h.findChild node key
  | .item => some none

/-- `while (node && key)`. -/
def lookupLoop (h : ConfigHeap) : Option ℕ → List (List UInt8) → Option (Option ℕ)
  | none, _ => some none
  | some node, [] => some (some node)
  | some node, key :: keys => do
    let node ← h.lookupStep node key
    lookupLoop h node keys

end ConfigHeap

def lookupDelim : UInt8 := 47

/-- `config_lookup`. -/
def configLookup (h : ConfigHeap) (config : Config) (path : List UInt8) : Option (Option ℕ) :=
  h.lookupLoop config.root (Strtok.strtok lookupDelim path)

/-- `config_node_get_bool` of a value. -/
def valueBool (value : List UInt8) : Bool :=
  strtoll value ≠ 0 || caseEq value (bytes "y") || caseEq value (bytes "yes") || caseEq value (bytes "true") ||
    caseEq value (bytes "t")

/-- `config_lookup_bool`: -1, or 0 and the value. A group has no value to read. -/
def configLookupBool (h : ConfigHeap) (config : Config) (path : List UInt8) : Option (ℤ × Option Bool) := do
  match ← configLookup h config path with
  | none => some (-1, none)
  | some node => do
    let n ← h.node node
    let value ← n.value
    some (0, some (valueBool (cStr value)))

/-- `config_lookup_string`: the value may be NULL. -/
def configLookupString (h : ConfigHeap) (config : Config) (path : List UInt8) :
    Option (ℤ × Option (List UInt8)) := do
  match ← configLookup h config path with
  | none => some (-1, none)
  | some node => do
    let n ← h.node node
    some (0, n.value)

/-! ### Printing -/

/-- A line of `print_tree` begins with two blanks for each level. -/
def printIndent (indent : ℕ) : List UInt8 := List.replicate (2 * indent) 32

/-- The line of a group: `[`, a dot for each level, the name, `]`. -/
def printHeader (indent : ℕ) (name : List UInt8) : List UInt8 :=
  printIndent indent ++ [91] ++ List.replicate indent 46 ++ name ++ [93, 10]

/-- The line of an item. -/
def printItem (indent : ℕ) (name value : List UInt8) : List UInt8 :=
  printIndent indent ++ name ++ [58] ++ value ++ [10]

/-- The name in the line of a child: elements of an array are printed with the key of the array. -/
def printName (node cur : ConfigTreeNode) : Option (List UInt8) :=
  if node.type = .array then node.key.map fun key => 64 :: cStr key else cur.key.map cStr

/-- `print_tree` from the child `cur` of `node` on. Every call is for another child, so the number of nodes is
enough for `fuel`. -/
def ConfigHeap.printFrom (h : ConfigHeap) : ℕ → ConfigTreeNode → ℕ → Option ℕ → Option (List UInt8)
  | _, _, _, none => some []
  | 0, _, _, some _ => none
  | fuel + 1, node, indent, some cur => do
    let c ← h.node cur
    let text ←
      match c.type with
      | .group => do
        let name ← printName node c
        let children ← printFrom h fuel c (indent + 1) c.firstChild
        some (printHeader indent name ++ children)
      | .array => printFrom h fuel c indent c.firstChild
      | .item => do
        let name ← printName node c
        let value ← c.value
        some (printItem indent name (cStr value))
    let rest ← printFrom h fuel node indent c.nextSibling
    some (text ++ rest)

/-- `print_tree`. -/
def printTree (h : ConfigHeap) (node : ℕ) (indent : ℕ) : Option (List UInt8) := do
  let n ← h.node node
  h.printFrom h.next n indent n.firstChild

end Spigeon
