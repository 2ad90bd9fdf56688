import Spigeon.Spec.ConfigAccess
import Spigeon.Spec.ConfigDoc
import Spigeon.Spec.ConfigLexer

/-!
# Configurations as values

A configuration without nodes and links: an item, a group of named values, an array of values without names.
`ConfigDoc.IsForest` says which value a tree is. A value is written as lines, one for each item and one for
the header of each group (`ConfigValue.lines`).

`Writable` says which values can be told from their lines: an item that stands behind a group in its group
would be read as an item of that group, and a value is written as it is, without quotes.
-/

namespace Spigeon

inductive ConfigValue where
  | item (key value : List UInt8)
  | group (key : List UInt8) (children : List ConfigValue)
  | array (key : List UInt8) (elements : List ConfigValue)

def ConfigValue.key : ConfigValue → List UInt8
  | .item key _ => key
  | .group key _ => key
  | .array key _ => key

/-! ### Values in trees -/

mutual

/-- The node `i` of the tree is this value. -/
def ConfigDoc.Holds (d : ConfigDoc) (i : ℕ) : ConfigValue → Prop
  | .item key value =>
    d.typeOf i = some .item ∧ d.keyOf i = some key ∧ d[i]?.bind ConfigEntry.value = some value ∧ d.kids i = []
  | .group key children => d.typeOf i = some .group ∧ d.keyOf i = some key ∧ d.HoldsAll (d.kids i) children
  | .array key elements => d.typeOf i = some .array ∧ d.keyOf i = some key ∧ d.HoldsAll (d.kids i) elements

/-- The nodes are these values, in this order. -/
def ConfigDoc.HoldsAll (d : ConfigDoc) : List ℕ → List ConfigValue → Prop
  | [], [] => True
  | i :: is, v :: vs => d.Holds i v ∧ d.HoldsAll is vs
  | [], _ :: _ => False
  | _ :: _, [] => False

end

/-- The children of the root are these values. -/
def ConfigDoc.IsForest (d : ConfigDoc) (vs : List ConfigValue) : Prop := d.HoldsAll (d.kids 0) vs

/-! ### Lines -/

/-- A line, in a group of this level. -/
structure ConfigLine where
  type : TokenType
  isArray : Bool
  level : ℕ
  key : List UInt8
  value : List UInt8
deriving DecidableEq, Repr

/-- The token says what the line does. The level of an item has no meaning. -/
structure LexerOutput.Says (t : LexerOutput) (l : ConfigLine) : Prop where
  type : t.type = l.type
  isArray : t.isArray = l.isArray
  key : t.key = l.key
  value : t.value = l.value
  level : t.type = .group → t.level = l.level

mutual

/-- The lines of a value in a group of this level. An element of an array has the key of the array. -/
def ConfigValue.lines (level : ℕ) (array : Option (List UInt8)) : ConfigValue → List ConfigLine
  | .item key value => [⟨.item, array.isSome, level, array.getD key, value⟩]
  | .group key children =>
    ⟨.group, array.isSome, level, array.getD key, []⟩ :: ConfigValue.linesAll (level + 1) none children
  | .array key elements => ConfigValue.linesAll level (some key) elements

def ConfigValue.linesAll (level : ℕ) (array : Option (List UInt8)) : List ConfigValue → List ConfigLine
  | [] => []
  | v :: vs => v.lines level array ++ ConfigValue.linesAll level array vs

end

/-- A line as `print_tree` writes it. -/
def ConfigLine.text (l : ConfigLine) : List UInt8 :=
  let name := if l.isArray then 64 :: l.key else l.key
  match l.type with
  | .group => printHeader l.level name
  | .item => printItem l.level name l.value

/-! ### Values that can be written -/

/-- A name that the scanner reads. -/
def KeyText (key : List UInt8) : Prop := key ≠ [] ∧ ∀ b ∈ key, isKeyByte b = true

instance (key : List UInt8) : Decidable (KeyText key) :=
  decidable_of_iff (key ≠ [] ∧ key.all isKeyByte = true) (and_congr_right fun _ => List.all_eq_true)

/-- A value that the scanner reads without quotes: empty, or with a first byte that is no blank, tab or
quote; without a comment sign or a newline, and without a zero byte, which ends it when it is printed. -/
def ValueText (value : List UInt8) : Prop :=
  (∀ b ∈ value, b ≠ 35 ∧ b ≠ 10 ∧ b ≠ 0) ∧ ∀ b ∈ value.head?, b ≠ 34 ∧ b ≠ 9 ∧ b ≠ 32

instance (value : List UInt8) : Decidable (ValueText value) :=
  decidable_of_iff
    (value.all (fun b => decide (b ≠ 35 ∧ b ≠ 10 ∧ b ≠ 0)) = true ∧
      value.head?.all (fun b => decide (b ≠ 34 ∧ b ≠ 9 ∧ b ≠ 32)) = true)
    (by cases value <;> simp [ValueText])

/-- `Writable inArray closed vs closed'`: the values can be written one after the other into a group, or into an
array in it. `closed` says that a header was written in the group before, and `closed'` that one was written
before or among them. -/
inductive Writable : Bool → Bool → List ConfigValue → Bool → Prop
  | nil (inArray closed : Bool) : Writable inArray closed [] closed
  | item {inArray closed' : Bool} {key value : List UInt8} {vs : List ConfigValue}
    (hkey : if inArray then key = [] else KeyText key) (hvalue : ValueText value)
    (hvs : Writable inArray false vs closed') : Writable inArray false (.item key value :: vs) closed'
  | group {inArray closed inner closed' : Bool} {key : List UInt8} {children vs : List ConfigValue}
    (hkey : if inArray then key = [] else KeyText key) (hkeys : (children.map ConfigValue.key).Nodup)
    (hchildren : Writable false false children inner) (hvs : Writable inArray true vs closed') :
    Writable inArray closed (.group key children :: vs) closed'
  | array {closed inner closed' : Bool} {key : List UInt8} {elements vs : List ConfigValue} (hkey : KeyText key)
    (hne : elements ≠ []) (helements : Writable true closed elements inner)
    (hvs : Writable false inner vs closed') : Writable false closed (.array key elements :: vs) closed'

end Spigeon
