import Mathlib.Algebra.Ring.Int.Defs
import Spigeon.Lib.Lts
import Spigeon.Proof.ConfigParse

/-!
# Where items land

The parser against the meaning of its tokens (`refToken`). As long as every header selects what is selected at
its level already or what is not there yet, the stack of the parser is the selection of the reference
(`Sim`), and both build the same tree.

* `config_tree_iff`: this condition is also necessary. A header that names an existing group which is not the
  selected one leaves the parser at the group above, and an array header does not look at the type of what has its
  key.
-/

namespace Spigeon

open Refine

namespace ConfigDoc

variable {d : ConfigDoc} {e : ConfigEntry} {p c a : ℕ}

/-! ### Trees that tokens build -/

/-- The elements of arrays have empty keys. -/
def ElementsUnnamed (d : ConfigDoc) : Prop :=
  ∀ j p, d.par j = some p → d.typeOf p = some .array → d.keyOf j = some []

/-- The trees of the reference. -/
structure Good (d : ConfigDoc) : Prop where
  tree : d.IsTree
  arrays : d.NoNestedArrays
  keys : d.KeysDistinct
  leaves : d.ItemsAreLeaves
  elements : d.ElementsUnnamed

theorem Good.type_parent (h : d.Good) {j : ℕ} (hj : d.par j = some p) :
    d.typeOf p = some .group ∨ d.typeOf p = some .array := by
  have hlt := (h.tree.lt hj).trans (lt_length_of_par hj)
  obtain ⟨ep, hep⟩ := exists_entry hlt
  have htype : d.typeOf p = some ep.type := by rw [typeOf, hep, Option.map_some]
  rw [htype]
  cases ht : ep.type with
  | group => exact Or.inl rfl
  | array => exact Or.inr rfl
  | item =>
    have hempty := h.leaves p (htype.trans (congrArg some ht))
    have hmem := mem_kids.mpr hj
    rw [hempty] at hmem
    cases hmem

/-- The group above is a group. -/
theorem Good.type_up (h : d.Good) {x y : ℕ} (hy : d.up x = some y) : d.typeOf y = some .group := by
  have hnot := h.arrays.up hy
  obtain ⟨p, hp, hy⟩ := Option.bind_eq_some_iff.mp hy
  split at hy
  next => exact (h.type_parent hy).resolve_right hnot
  next =>
    cases hy
    exact (h.type_parent hp).resolve_right hnot

theorem Good.type_climb (h : d.Good) {n x y : ℕ} (hx : d.typeOf x = some .group)
    (hy : d.climb n x = some y) : d.typeOf y = some .group := by
  induction n generalizing x with
  | zero => cases hy; exact hx
  | succ n ih =>
    obtain ⟨z, hz, hy⟩ := Option.bind_eq_some_iff.mp hy
    exact ih (h.type_up hz) hy

section Snoc

variable (h : d.Good) (he : e.parent = some p) (hp : p < d.length)

include h he hp

/-- A child in the tree with one more entry: it has a parent that was there before. -/
theorem Good.par_snoc_cases {j q : ℕ} (hq : par (d ++ [e]) j = some q) :
    q < d.length ∧ ((j < d.length ∧ d.par j = some q) ∨ (j = d.length ∧ q = p)) := by
  have hlt := lt_length_of_par hq
  rw [List.length_append, List.length_singleton] at hlt
  rcases Nat.lt_succ_iff_lt_or_eq.mp hlt with hlt | rfl
  · rw [par_snoc_of_lt hlt] at hq
    exact ⟨(h.tree.lt hq).trans hlt, Or.inl ⟨hlt, hq⟩⟩
  · rw [par_snoc, he, Option.some.injEq] at hq
    subst hq
    exact ⟨hp, Or.inr ⟨rfl, rfl⟩⟩

theorem Good.keys_snoc (hkey : d.typeOf p ≠ some .array → ∀ i ∈ d.kids p, d.keyOf i ≠ e.key) :
    KeysDistinct (d ++ [e]) := by
  intro q i j hq hi hj hij
  obtain ⟨hlt, hi'⟩ := h.par_snoc_cases he hp (mem_kids.mp hi)
  obtain ⟨-, hj'⟩ := h.par_snoc_cases he hp (mem_kids.mp hj)
  rw [typeOf_snoc_of_lt hlt] at hq
  rcases hi' with ⟨hi, hpi⟩ | ⟨rfl, rfl⟩
  · rw [keyOf_snoc_of_lt hi] at hij
    rcases hj' with ⟨hj, hpj⟩ | ⟨rfl, rfl⟩
    · rw [keyOf_snoc_of_lt hj] at hij
      exact h.keys q i j hq (mem_kids.mpr hpi) (mem_kids.mpr hpj) hij
    · rw [keyOf_snoc] at hij
      exact absurd hij (hkey hq i (mem_kids.mpr hpi))
  · rw [keyOf_snoc] at hij
    rcases hj' with ⟨hj, hpj⟩ | ⟨rfl, -⟩
    · rw [keyOf_snoc_of_lt hj] at hij
      exact absurd hij.symm (hkey hq j (mem_kids.mpr hpj))
    · rfl

theorem Good.leaves_snoc (hitem : d.typeOf p ≠ some .item) : ItemsAreLeaves (d ++ [e]) := by
  intro q hq
  refine List.eq_nil_iff_forall_not_mem.mpr fun j hj => ?_
  obtain ⟨hlt, hj'⟩ := h.par_snoc_cases he hp (mem_kids.mp hj)
  rw [typeOf_snoc_of_lt hlt] at hq
  rcases hj' with ⟨-, hpj⟩ | ⟨-, rfl⟩
  · have hmem := mem_kids.mpr hpj
    rw [h.leaves q hq] at hmem
    cases hmem
  · exact hitem hq

theorem Good.elements_snoc (helem : d.typeOf p = some .array → e.key = some []) :
    ElementsUnnamed (d ++ [e]) := by
  intro j q hj hq
  obtain ⟨hlt, hj'⟩ := h.par_snoc_cases he hp hj
  rw [typeOf_snoc_of_lt hlt] at hq
  rcases hj' with ⟨hj, hpj⟩ | ⟨rfl, rfl⟩
  · rw [keyOf_snoc_of_lt hj]
    exact h.elements j q hpj hq
  · rw [keyOf_snoc]
    exact helem hq

end Snoc

theorem lt_length_of_type {ty : NodeType} (h : d.typeOf p = some ty) : p < d.length := by
  by_contra hp
  rw [typeOf, List.getElem?_eq_none (by omega)] at h
  cases h

theorem child_none {key : List UInt8} (h : d.child c key = none) {i : ℕ} (hi : i ∈ d.kids c) :
    d.keyOf i ≠ some key := by
  intro hkey
  have hno := List.find?_eq_none.mp h i hi
  rw [hkey] at hno
  simp at hno

theorem good_init : Good init where
  tree := DocState.init_ok.tree
  arrays := DocState.init_ok.arrays
  keys := by
    intro p i j _ hi
    rw [mem_kids, par_init] at hi
    cases hi
  leaves := by
    intro p _
    refine List.eq_nil_iff_forall_not_mem.mpr fun j hj => ?_
    rw [mem_kids, par_init] at hj
    cases hj
  elements := by
    intro j p hp
    rw [par_init] at hp
    cases hp

/-- A node with a new key in a group. -/
theorem Good.addNew (h : d.Good) (hc : d.typeOf c = some .group) {key : List UInt8}
    (hnone : d.child c key = none) (type : NodeType) (t : LexerOutput) : Good (d.add c type key t) := by
  have hlt := lt_length_of_type hc
  have harray : d.typeOf c ≠ some .array := by rw [hc]; decide
  refine ⟨h.tree.snoc rfl hlt, h.arrays.snoc h.tree rfl hlt fun _ => harray,
    h.keys_snoc rfl hlt fun _ i hi => child_none hnone hi, h.leaves_snoc rfl hlt ?_,
    h.elements_snoc rfl hlt fun heq => absurd heq harray⟩
  rw [hc]
  decide

/-- An element of an array. -/
theorem Good.addElement (h : d.Good) (ha : d.typeOf a = some .array) {type : NodeType} (htype : type ≠ .array)
    (t : LexerOutput) : Good (d.add a type [] t) := by
  have hlt := lt_length_of_type ha
  refine ⟨h.tree.snoc rfl hlt, h.arrays.snoc h.tree rfl hlt fun heq => absurd heq htype,
    h.keys_snoc rfl hlt fun hne => absurd ha hne, h.leaves_snoc rfl hlt ?_, h.elements_snoc rfl hlt fun _ => rfl⟩
  rw [ha]
  decide

theorem typeOf_add (d : ConfigDoc) (p : ℕ) (type : NodeType) (key : List UInt8) (t : LexerOutput) :
    (d.add p type key t).typeOf d.length = some type := typeOf_snoc _ _

theorem eq_some_of_getD {o : Option (List UInt8)} {key : List UInt8} (h : o.getD [] = key) (hne : key ≠ []) :
    o = some key := by
  cases o with
  | none => exact absurd h.symm hne
  | some k => exact congrArg some h

/-- The child with a key that is there. -/
theorem Good.child_eq (h : d.Good) (hc : d.typeOf c = some .group) {x : ℕ} {key : List UInt8}
    (hx : d.par x = some c) (hkey : (d.keyOf x).getD [] = key) (hne : key ≠ []) : d.child c key = some x := by
  have hsome : (d.child c key).isSome := by
    refine List.find?_isSome.mpr ⟨x, mem_kids.mpr hx, ?_⟩
    simpa using hkey
  obtain ⟨j, hj⟩ := Option.isSome_iff_exists.mp hsome
  obtain ⟨hpj, hkj⟩ := child_spec hj
  have hsame : d.keyOf j = d.keyOf x := by
    rw [eq_some_of_getD hkj hne, eq_some_of_getD hkey hne]
  have harray : d.typeOf c ≠ some .array := by rw [hc]; decide
  rw [hj, h.keys c j x harray (mem_kids.mpr hpj) (mem_kids.mpr hx) hsame]

end ConfigDoc

/-! ### The stack and the selection -/

/-- The state of the reference with the tree and the current group of the parser. -/
def DocState.ref (s : DocState) (selected : ℕ → ℕ) : RefState := ⟨s.doc, selected, s.cur⟩

/-- The groups on the stack are those selected at their levels. What is selected above the stack was added before
its top. -/
structure Sim (s : DocState) (selected : ℕ → ℕ) : Prop where
  ok : s.Ok
  good : s.doc.Good
  cur_group : s.doc.typeOf s.cur = some .group
  top_group : s.doc.typeOf s.stackTop = some .group
  stack : ∀ l : ℕ, l ≤ s.topLevel → s.doc.climb (s.topLevel - l).toNat s.stackTop = some (selected l)
  root : s.doc.climb (s.topLevel + 1).toNat s.stackTop = some 0
  stale : ∀ l : ℕ, s.topLevel < l → selected l ≤ s.stackTop

section Simulation

variable {calloc : ℕ → Bool} {s s' : DocState} {sel : ℕ → ℕ} {t : LexerOutput}

theorem Sim.init : Sim DocState.init fun _ => 0 where
  ok := DocState.init_ok
  good := ConfigDoc.good_init
  cur_group := rfl
  top_group := rfl
  stack := by
    intro l hl
    have hneg : (l : ℤ) ≤ -1 := hl
    omega
  root := rfl
  stale := fun _ _ => le_rfl

/-- **The parser climbs to the group that the header is looked up in.** -/
theorem Sim.above (h : Sim s sel) (hlevel : ¬ t.level > s.topLevel + 1) :
    s.doc.climb (s.topLevel + 1 - t.level).toNat s.stackTop = some ((s.ref sel).above t.level) := by
  cases hl : t.level with
  | zero =>
    rw [Nat.cast_zero, sub_zero]
    exact h.root
  | succ k =>
    have hk : (k : ℤ) ≤ s.topLevel := by omega
    have hsteps : (s.topLevel + 1 - ((k + 1 : ℕ) : ℤ)).toNat = (s.topLevel - k).toNat := by omega
    rw [hsteps]
    exact h.stack k hk

theorem Sim.above_group (h : Sim s sel) (hlevel : ¬ t.level > s.topLevel + 1) :
    s.doc.typeOf ((s.ref sel).above t.level) = some .group :=
  h.good.type_climb h.top_group (h.above hlevel)

/-- A new group that is one step below the group that its header is looked up in. -/
theorem Sim.push (h : Sim s sel) (hlevel : ¬ t.level > s.topLevel + 1) {doc : ConfigDoc} {g : ℕ}
    (hok : DocState.Ok ⟨doc, g, g, t.level⟩) (hgood : doc.Good) (hg : doc.typeOf g = some .group)
    (hup : doc.up g = some ((s.ref sel).above t.level)) (hlt : s.doc.length ≤ g)
    (hold : ∀ n x, x < s.doc.length → doc.climb n x = s.doc.climb n x) :
    Sim ⟨doc, g, g, t.level⟩ (Function.update sel t.level g) := by
  have habove := h.above hlevel
  have hlen := ConfigDoc.lt_length_of_type (h.above_group hlevel)
  have hlv := h.ok.level
  have htop := h.ok.top_lt
  -- a climb from the new group goes on where one from the old top of the stack does
  have hclimb : ∀ n, doc.climb (n + 1) g =
      s.doc.climb ((s.topLevel + 1 - t.level).toNat + n) s.stackTop := by
    intro n
    rw [ConfigDoc.climb, hup, Option.bind_some, hold n _ hlen, ConfigDoc.climb_add, habove,
      Option.bind_some]
  refine ⟨hok, hgood, hg, hg, ?_, ?_, ?_⟩
  · intro l hl
    dsimp only at hl ⊢
    rcases Nat.lt_or_ge l t.level with hlt' | hge
    · have hsteps : ((t.level : ℤ) - l).toNat = (t.level - l - 1) + 1 := by omega
      have hsum : (s.topLevel + 1 - t.level).toNat + (t.level - l - 1) = (s.topLevel - l).toNat := by omega
      rw [hsteps, hclimb, hsum, Function.update_of_ne hlt'.ne]
      exact h.stack l (by omega)
    · obtain rfl : l = t.level := by omega
      rw [sub_self, Function.update_self]
      rfl
  · have hsteps : ((t.level : ℤ) + 1).toNat = t.level + 1 := by omega
    have hsum : (s.topLevel + 1 - t.level).toNat + t.level = (s.topLevel + 1).toNat := by omega
    dsimp only
    rw [hsteps, hclimb, hsum]
    exact h.root
  · intro l hl
    dsimp only at hl ⊢
    have hne : l ≠ t.level := by omega
    rw [Function.update_of_ne hne]
    have hle : sel l ≤ s.stackTop := by
      rcases le_or_gt (l : ℤ) s.topLevel with hon | hoff
      · exact h.ok.tree.climb_le (h.stack l hon)
      · exact h.stale l hoff
    omega

/-- A node that is added below a group or an array leaves the stack as it is. -/
theorem Sim.add (h : Sim s sel) {p : ℕ} {type : NodeType} {key : List UInt8}
    (hok : DocState.Ok { s with doc := s.doc.add p type key t })
    (hgood : (s.doc.add p type key t).Good) : Sim { s with doc := s.doc.add p type key t } sel where
  ok := hok
  good := hgood
  cur_group := (ConfigDoc.typeOf_snoc_of_lt h.ok.cur_lt).trans h.cur_group
  top_group := (ConfigDoc.typeOf_snoc_of_lt h.ok.top_lt).trans h.top_group
  stack := fun l hl => (ConfigDoc.climb_snoc_of_lt h.ok.tree h.ok.top_lt).trans (h.stack l hl)
  root := (ConfigDoc.climb_snoc_of_lt h.ok.tree h.ok.top_lt).trans h.root
  stale := h.stale

theorem group_ne_array {d : ConfigDoc} {c : ℕ} (h : d.typeOf c = some .group) : d.typeOf c ≠ some .array := by
  rw [h]
  decide

/-- The array of an item. -/
theorem Sim.itemArray (h : Sim s sel) {a : ℕ} {s₁ : DocState} (harray : docItemArray calloc t s = .ok (a, s₁)) :
    refArray s.doc s.cur t = some (a, s₁.doc) ∧ Sim s₁ sel ∧ s₁.doc.typeOf a = some .array ∧ s₁.cur = s.cur := by
  unfold docItemArray at harray
  unfold refArray
  cases hchild : s.doc.child s.cur t.key with
  | none =>
    rw [hchild] at harray
    obtain ⟨rfl, rfl⟩ := docAdd_eq_ok harray
    have hok := h.ok.add .array h.ok.cur_lt (fun _ => h.ok.cur_type) t.key t
    exact ⟨rfl, h.add hok (h.good.addNew h.cur_group hchild _ _), ConfigDoc.typeOf_add .., rfl⟩
  | some a' =>
    rw [hchild] at harray
    dsimp only at harray ⊢
    split at harray
    next htype =>
      cases harray
      rw [if_pos htype]
      exact ⟨rfl, h, htype, rfl⟩
    next => cases harray

/-- An item is added to the current group. -/
theorem Sim.item (h : Sim s sel) (hitem : docItem calloc t s = .ok s') :
    refItem t (s.ref sel) = some (s'.ref sel) ∧ Sim s' sel := by
  unfold docItem at hitem
  unfold refItem
  split at hitem
  next harr =>
    rw [if_pos harr]
    obtain ⟨⟨a, s₁⟩, harray, hitem⟩ := bind_eq_ok hitem
    obtain ⟨⟨b, s₂⟩, hadd, hret⟩ := bind_eq_ok hitem
    obtain ⟨rfl, rfl⟩ := docAdd_eq_ok hadd
    cases hret
    obtain ⟨href, h₁, htype, hcur⟩ := h.itemArray harray
    have hok := h₁.ok.add .item (ConfigDoc.lt_length_of_type htype) (by simp) [] t
    refine ⟨?_, h₁.add hok (h₁.good.addElement htype (by decide) t)⟩
    change (refArray s.doc s.cur t).map _ = _
    rw [href, Option.map_some, DocState.ref, DocState.ref, hcur]
  next harr =>
    rw [if_neg harr]
    dsimp only [DocState.ref]
    cases hchild : s.doc.child s.cur t.key with
    | some a => rw [hchild] at hitem; cases hitem
    | none =>
      rw [hchild] at hitem
      obtain ⟨⟨b, s₁⟩, hadd, hret⟩ := bind_eq_ok hitem
      obtain ⟨rfl, rfl⟩ := docAdd_eq_ok hadd
      cases hret
      have hok := h.ok.add .item h.ok.cur_lt (by simp) t.key t
      exact ⟨rfl, h.add hok (h.good.addNew h.cur_group hchild _ _)⟩

/-- The header selects a group that is selected at its level or not there yet, and an array header an array or
nothing. -/
def Selectable (r : RefState) (t : LexerOutput) : Prop :=
  t.type = .group → ∀ g, r.doc.child (r.above t.level) t.key = some g →
    if t.isArray then r.doc.typeOf g = some .array
    else r.doc.typeOf g = some .group → r.selected t.level = g

instance (r : RefState) (t : LexerOutput) : Decidable (Selectable r t) :=
  inferInstanceAs (Decidable (t.type = .group → ∀ g ∈ r.doc.child (r.above t.level) t.key,
    if t.isArray then r.doc.typeOf g = some .array
    else r.doc.typeOf g = some .group → r.selected t.level = g))

theorem docPush_eq_ok {key : List UInt8} {p : ℕ} (h : docPush calloc key t p s = .ok s') :
    s' = ⟨s.doc.add p .group key t, s.doc.length, s.doc.length, t.level⟩ := by
  obtain ⟨⟨a, s₁⟩, hadd, hret⟩ := bind_eq_ok h
  obtain ⟨rfl, rfl⟩ := docAdd_eq_ok hadd
  cases hret
  rfl

/-- A new group in an array that is below the group that the header is looked up in. -/
theorem Sim.pushElement (h : Sim s sel) (hlevel : ¬ t.level > s.topLevel + 1) {doc : ConfigDoc} {a : ℕ}
    (hok : DocState.Ok ⟨doc.add a .group [] t, doc.length, doc.length, t.level⟩) (hgood : doc.Good)
    (ha : doc.typeOf a = some .array) (hpar : doc.par a = some ((s.ref sel).above t.level))
    (hlt : s.doc.length ≤ doc.length) (hold : ∀ n x, x < s.doc.length → doc.climb n x = s.doc.climb n x) :
    Sim ⟨doc.add a .group [] t, doc.length, doc.length, t.level⟩
      (Function.update sel t.level doc.length) := by
  have halt := ConfigDoc.lt_length_of_type ha
  refine h.push hlevel hok (hgood.addElement ha (by decide) t) (ConfigDoc.typeOf_add ..) ?_ hlt ?_
  · have hnew : (doc.add a .group [] t).par doc.length = some a := ConfigDoc.par_snoc _ _
    rw [ConfigDoc.up, hnew, Option.bind_some, ConfigDoc.add, ConfigDoc.typeOf_snoc_of_lt halt, ha, if_pos rfl,
      ConfigDoc.par_snoc_of_lt halt, hpar]
  · intro n x hx
    rw [ConfigDoc.add, ConfigDoc.climb_snoc_of_lt hgood.tree (hx.trans_le hlt), hold n x hx]

/-- The array of a header below a group. -/
theorem Sim.headerArray (h : Sim s sel) {a c : ℕ} {s₁ : DocState} (hc : s.doc.typeOf c = some .group)
    (hhead : docHeaderArray calloc t c s = .ok (a, s₁))
    (harray : ∀ a, s.doc.child c t.key = some a → s.doc.typeOf a = some .array) :
    refArray s.doc c t = some (a, s₁.doc) ∧ s₁.doc.Good ∧ s₁.doc.typeOf a = some .array ∧
      s₁.doc.par a = some c ∧ s.doc.length ≤ s₁.doc.length ∧
      ∀ n x, x < s.doc.length → s₁.doc.climb n x = s.doc.climb n x := by
  unfold docHeaderArray at hhead
  unfold refArray
  cases hchild : s.doc.child c t.key with
  | none =>
    rw [hchild] at hhead
    obtain ⟨rfl, rfl⟩ := docAdd_eq_ok hhead
    refine ⟨rfl, h.good.addNew hc hchild _ _, ConfigDoc.typeOf_add .., ConfigDoc.par_snoc _ _, ?_, ?_⟩
    · simp [ConfigDoc.add]
    · intro n x hx
      exact ConfigDoc.climb_snoc_of_lt h.ok.tree hx
  | some a' =>
    rw [hchild] at hhead
    cases hhead
    exact ⟨if_pos (harray a hchild), h.good, harray a hchild, (child_spec hchild).1, le_rfl, fun _ _ _ => rfl⟩

/-- A header of an array that is there, or of a new one. -/
theorem Sim.openArray (h : Sim s sel) (hlevel : ¬ t.level > s.topLevel + 1) (hok : s'.Ok)
    (harr : t.isArray = true) (hopen : docOpen calloc t ((s.ref sel).above t.level) s = .ok s')
    (harray : ∀ a, s.doc.child ((s.ref sel).above t.level) t.key = some a → s.doc.typeOf a = some .array) :
    ∃ sel', refGroup t (s.ref sel) = some (s'.ref sel') ∧ Sim s' sel' := by
  rw [docOpen, if_pos harr] at hopen
  obtain ⟨⟨a, s₁⟩, hhead, hpush⟩ := bind_eq_ok hopen
  obtain rfl := docPush_eq_ok hpush
  obtain ⟨href, hgood, htype, hpar, hlen, hold⟩ := h.headerArray (h.above_group hlevel) hhead harray
  refine ⟨Function.update sel t.level s₁.doc.length, ?_, h.pushElement hlevel hok hgood htype hpar hlen hold⟩
  have href' : refArray (s.ref sel).doc ((s.ref sel).above t.level) t = some (a, s₁.doc) := href
  rw [refGroup, if_pos harr, href']
  rfl

/-- A header of a group that is not there yet. -/
theorem Sim.openNew (h : Sim s sel) (hlevel : ¬ t.level > s.topLevel + 1) (hok : s'.Ok)
    (harr : ¬ t.isArray = true) (hopen : docOpen calloc t ((s.ref sel).above t.level) s = .ok s')
    (hgroup : ∀ g, s.doc.child ((s.ref sel).above t.level) t.key = some g → s.doc.typeOf g ≠ some .group) :
    ∃ sel', refGroup t (s.ref sel) = some (s'.ref sel') ∧ Sim s' sel' := by
  have hc := h.above_group hlevel
  have hclt := ConfigDoc.lt_length_of_type hc
  rw [docOpen, if_neg harr] at hopen
  cases hchild : s.doc.child ((s.ref sel).above t.level) t.key with
  | none =>
    rw [hchild] at hopen
    obtain rfl := docPush_eq_ok hopen
    refine ⟨Function.update sel t.level s.doc.length, ?_, ?_⟩
    · have hchild' : (s.ref sel).doc.child ((s.ref sel).above t.level) t.key = none := hchild
      rw [refGroup, if_neg harr, hchild']
      rfl
    · refine h.push hlevel hok (h.good.addNew hc hchild _ _) (ConfigDoc.typeOf_add ..) ?_ le_rfl ?_
      · have hnew : (s.doc.add ((s.ref sel).above t.level) .group t.key t).par s.doc.length =
            some ((s.ref sel).above t.level) := ConfigDoc.par_snoc _ _
        rw [ConfigDoc.up, hnew, Option.bind_some, ConfigDoc.add, ConfigDoc.typeOf_snoc_of_lt hclt,
          if_neg (group_ne_array hc)]
      · intro n x hx
        exact ConfigDoc.climb_snoc_of_lt h.ok.tree hx
  | some g =>
    rw [hchild] at hopen
    dsimp only at hopen
    rw [if_neg (hgroup g hchild)] at hopen
    cases hopen

/-- The group that is selected at the level of a header, and its name. -/
theorem Sim.selected (h : Sim s sel) (hon : (t.level : ℤ) ≤ s.topLevel) :
    s.doc.climb (s.topLevel - t.level).toNat s.stackTop = some (sel t.level) ∧
      s.doc.typeOf (sel t.level) = some .group ∧
      s.doc.up (sel t.level) = some ((s.ref sel).above t.level) := by
  have hstack := h.stack t.level hon
  refine ⟨hstack, h.good.type_climb h.top_group hstack, ?_⟩
  have habove := h.above (t := t) (by omega)
  have hsteps : (s.topLevel + 1 - t.level).toNat = (s.topLevel - t.level).toNat + 1 := by omega
  rw [hsteps, ConfigDoc.climb_add, hstack, Option.bind_some] at habove
  obtain ⟨y, hy, heq⟩ := Option.bind_eq_some_iff.mp habove
  cases heq
  exact hy

/-- The shortcut for the same name finds the group that the header names. -/
theorem Sim.child_selected (h : Sim s sel) (hon : (t.level : ℤ) ≤ s.topLevel)
    (hkey : (s.doc.keyOf (sel t.level)).getD [] = t.key) :
    s.doc.child ((s.ref sel).above t.level) t.key = some (sel t.level) := by
  obtain ⟨-, -, hup⟩ := h.selected hon
  refine h.good.child_eq (h.above_group (by omega)) ?_ hkey t.key_ne
  obtain ⟨p, hp, hy⟩ := Option.bind_eq_some_iff.mp hup
  split at hy
  next harray =>
    -- an element of an array has no name
    have hempty := h.good.elements _ p hp harray
    rw [hempty] at hkey
    exact absurd hkey.symm t.key_ne
  next => rw [hp, hy]

/-- What a group header does to the parser. -/
theorem Sim.group_cases (h : Sim s sel) (hgroup : docGroup calloc t s = .ok s') :
    ¬ t.level > s.topLevel + 1 ∧
    ((¬ t.isArray = true ∧ s.doc.child ((s.ref sel).above t.level) t.key = some (sel t.level) ∧
        s.doc.typeOf (sel t.level) = some .group ∧ s' = { s with cur := sel t.level }) ∨
      (docOpen calloc t ((s.ref sel).above t.level) s = .ok s' ∧
        (¬ t.isArray = true → s.doc.child ((s.ref sel).above t.level) t.key ≠ some (sel t.level)))) := by
  unfold docGroup at hgroup
  split at hgroup
  next => cases hgroup
  next hlevel =>
    refine ⟨hlevel, ?_⟩
    dsimp only at hgroup
    split at hgroup
    next hon =>
      obtain ⟨hsel, htype, hup⟩ := h.selected hon
      rw [hsel, Option.getD_some, hup, Option.getD_some] at hgroup
      split at hgroup
      next hdiff =>
        refine Or.inr ⟨hgroup, ?_⟩
        intro harr hchild
        exact (hdiff.resolve_left harr) (child_spec hchild).2
      next hsame =>
        rw [not_or, not_not] at hsame
        cases hgroup
        exact Or.inl ⟨hsame.1, h.child_selected hon hsame.2, htype, rfl⟩
    next hoff =>
      have habove := h.above hlevel
      have hzero : (s.topLevel + 1 - t.level).toNat = 0 := by omega
      have hzero' : (s.topLevel - t.level).toNat = 0 := by omega
      rw [hzero] at habove
      rw [hzero', habove, Option.getD_some] at hgroup
      refine Or.inr ⟨hgroup, ?_⟩
      intro _ hchild
      -- what is selected above the stack was added before its top
      have hstale := h.stale t.level (by omega)
      have hlt := h.ok.tree.lt (child_spec hchild).1
      have htop : s.stackTop = (s.ref sel).above t.level := Option.some.inj habove
      omega

/-- **The parser follows a header that is selectable.** -/
theorem Sim.group (h : Sim s sel) (hgroup : docGroup calloc t s = .ok s') (htype : t.type = .group)
    (hsel : Selectable (s.ref sel) t) : ∃ sel', refGroup t (s.ref sel) = some (s'.ref sel') ∧ Sim s' sel' := by
  have hok := h.ok.group hgroup
  obtain ⟨hlevel, ⟨harr, hchild, hg, rfl⟩ | ⟨hopen, hother⟩⟩ := h.group_cases hgroup
  · refine ⟨sel, ?_, { h with ok := hok, cur_group := hg }⟩
    have hchild' : (s.ref sel).doc.child ((s.ref sel).above t.level) t.key = some (sel t.level) := hchild
    have hg' : (s.ref sel).doc.typeOf (sel t.level) = some .group := hg
    rw [refGroup, if_neg harr, hchild']
    dsimp only
    rw [if_pos hg', RefState.select]
    change some (RefState.mk s.doc (Function.update sel t.level (sel t.level)) (sel t.level)) = _
    rw [Function.update_eq_self]
    rfl
  · by_cases harr : t.isArray = true
    · refine h.openArray hlevel hok harr hopen fun a ha => ?_
      have hsel' := hsel htype a ha
      rwa [if_pos harr] at hsel'
    · refine h.openNew hlevel hok harr hopen fun g hg htg => ?_
      have hsel' := hsel htype g hg
      rw [if_neg harr] at hsel'
      have heq : sel t.level = g := hsel' htg
      exact hother harr (heq ▸ hg)

/-- A header that the parser follows is selectable. -/
theorem Sim.selectable (h : Sim s sel) (hgroup : docGroup calloc t s = .ok s') {r' : RefState}
    (href : refGroup t (s.ref sel) = some r') (hcur : s'.cur = r'.current) : Selectable (s.ref sel) t := by
  intro _ g hg
  obtain ⟨hlevel, ⟨harr, hchild, -, rfl⟩ | ⟨hopen, hother⟩⟩ := h.group_cases hgroup
  · rw [if_neg harr]
    intro _
    exact Option.some.inj (hchild.symm.trans hg)
  · by_cases harr : t.isArray = true
    · rw [if_pos harr]
      rw [refGroup, if_pos harr, refArray, hg] at href
      dsimp only at href
      split at href
      next htype => exact htype
      next => cases href
    · -- the parser stays at the group above
      rw [if_neg harr]
      intro htype
      have hg' : s.doc.child ((s.ref sel).above t.level) t.key = some g := hg
      have htype' : s.doc.typeOf g = some .group := htype
      rw [docOpen, if_neg harr, hg'] at hopen
      dsimp only at hopen
      rw [if_pos htype'] at hopen
      cases hopen
      rw [refGroup, if_neg harr, hg] at href
      dsimp only at href
      rw [if_pos htype] at href
      cases href
      have hlt := h.ok.tree.lt (child_spec hg').1
      have heq : (s.ref sel).above t.level = g := hcur
      omega

/-! ### Whole files -/

theorem Sim.token (h : Sim s sel) (htoken : docToken calloc t s = .ok s') (hsel : Selectable (s.ref sel) t) :
    ∃ sel', refToken (s.ref sel) t = some (s'.ref sel') ∧ Sim s' sel' := by
  unfold docToken at htoken
  unfold refToken
  cases htype : t.type with
  | item =>
    rw [htype] at htoken
    exact ⟨sel, h.item htoken⟩
  | group =>
    rw [htype] at htoken
    exact h.group htoken htype hsel

theorem Sim.selectable_token (h : Sim s sel) (htoken : docToken calloc t s = .ok s') {r' : RefState}
    (href : refToken (s.ref sel) t = some r') (hcur : s'.cur = r'.current) : Selectable (s.ref sel) t := by
  intro htype
  unfold docToken at htoken
  unfold refToken at href
  rw [htype] at htoken href
  exact h.selectable htoken href hcur htype

/-- **Along selectable headers the parser builds the tree of the reference.** -/
theorem Sim.run {ts : List LexerOutput} (h : Sim s sel) (hloop : docLoop calloc (ts.map .token) s = .ok s')
    (hsel : Lts.Along refToken Selectable (s.ref sel) ts) :
    ∃ sel', Lts.run refToken (s.ref sel) ts = some (s'.ref sel') ∧ Sim s' sel' := by
  induction ts generalizing s sel with
  | nil =>
    cases hloop
    exact ⟨sel, rfl, h⟩
  | cons t ts ih =>
    obtain ⟨s₁, htoken, hloop⟩ := bind_eq_ok hloop
    obtain ⟨sel₁, href, h₁⟩ := h.token htoken hsel.1
    obtain ⟨sel', hrun, h'⟩ := ih h₁ hloop (hsel.2 _ href)
    exact ⟨sel', Lts.run_cons.mpr ⟨_, href, hrun⟩, h'⟩

/-- Headers after each of which the parser is at the group of the reference are selectable. -/
theorem Sim.along {ts : List LexerOutput} (h : Sim s sel)
    (hfollows : ∀ pre, pre <+: ts → ∃ s₁ r₁, docLoop calloc (pre.map .token) s = .ok s₁ ∧
      Lts.run refToken (s.ref sel) pre = some r₁ ∧ s₁.cur = r₁.current) :
    Lts.Along refToken Selectable (s.ref sel) ts := by
  induction ts generalizing s sel with
  | nil => trivial
  | cons t ts ih =>
    obtain ⟨s₁, r₁, hloop, hrun, hcur⟩ := hfollows [t] ⟨ts, rfl⟩
    obtain ⟨s₂, htoken, hret⟩ := bind_eq_ok hloop
    cases hret
    obtain ⟨r₂, href, hret⟩ := Lts.run_cons.mp hrun
    cases hret
    have hsel := h.selectable_token htoken href hcur
    obtain ⟨sel₁, href₁, h₁⟩ := h.token htoken hsel
    refine ⟨hsel, fun r hr => ?_⟩
    cases href₁.symm.trans hr
    refine ih h₁ fun pre hpre => ?_
    obtain ⟨s₃, r₃, hloop, hrun, hcur⟩ := hfollows (t :: pre) (List.cons_prefix_cons.mpr ⟨rfl, hpre⟩)
    obtain ⟨s₄, htoken₄, hloop⟩ := bind_eq_ok hloop
    obtain ⟨r₄, href₄, hrun⟩ := Lts.run_cons.mp hrun
    cases htoken.symm.trans htoken₄
    cases href₁.symm.trans href₄
    exact ⟨s₃, r₃, hloop, hrun, hcur⟩

end Simulation

/-- The heap of the parser holds the tree of the reference, from `base` on, and the parser is at the group that
was selected last. The tree is well formed; that its links, lengths and indexes agree with the order of the
children is part of `Laid`. -/
structure Matches (base : ℕ) (s : ParseState) (r : RefState) : Prop where
  laid : r.doc.Laid base s.heap
  next : s.heap.next = base + r.doc.length
  cur : s.cur = base + r.current
  keys : r.doc.KeysDistinct
  leaves : r.doc.ItemsAreLeaves

/-- After every token the parser is where the meaning of the tokens says. -/
def FollowsTokens (calloc : ℕ → Bool) (h : ConfigHeap) (ts : List LexerOutput) : Prop :=
  ∀ pre, pre <+: ts → ∃ s r, (parseLoop calloc (pre.map .token) (.init h)).run = some (.ok s) ∧
    Lts.run refToken .init pre = some r ∧ Matches h.next s r

theorem Sim.matches {base : ℕ} {freed : List ℕ} {s : ParseState} {d : DocState} {sel : ℕ → ℕ} (h : Sim d sel)
    (hrel : Rel base freed s d) : Matches base s (d.ref sel) :=
  ⟨hrel.laid, hrel.next, hrel.cur, h.good.keys, h.good.leaves⟩

/-- The loop on a part of a file that it can read. -/
theorem parseLoop_left {calloc : ℕ → Bool} {rs rs' : List LexerResult} {d : DocState}
    (h : docLoop calloc (rs ++ rs') .init = .ok d) (heap : ConfigHeap) :
    ∃ s d', (parseLoop calloc rs (.init heap)).run = some (.ok s) ∧ docLoop calloc rs .init = .ok d' ∧
      Rel heap.next heap.freed s d' := by
  rw [docLoop_append] at h
  obtain ⟨d', hleft, -⟩ := bind_eq_ok h
  have hrefines := parseLoop_init calloc rs heap
  rw [hleft] at hrefines
  obtain ⟨s, hrun, hrel⟩ := hrefines
  exact ⟨s, d', hrun, hleft, hrel⟩

theorem FollowsTokens.along {calloc : ℕ → Bool} {h : ConfigHeap} {ts : List LexerOutput} {d : DocState}
    (hd : docLoop calloc (ts.map .token) .init = .ok d) (hfollows : FollowsTokens calloc h ts) :
    Lts.Along refToken Selectable .init ts := by
  have hdoc : ∀ pre, pre <+: ts → ∃ s₁ r₁, docLoop calloc (pre.map .token) .init = .ok s₁ ∧
      Lts.run refToken (DocState.init.ref fun _ => 0) pre = some r₁ ∧ s₁.cur = r₁.current := by
    intro pre hpre
    obtain ⟨s, r, hrun, href, hmatch⟩ := hfollows pre hpre
    obtain ⟨post, rfl⟩ := hpre
    rw [List.map_append] at hd
    obtain ⟨s', d', hrun', hloop, hrel⟩ := parseLoop_left hd h
    cases hrun.symm.trans hrun'
    have hcur := hmatch.cur
    rw [hrel.cur] at hcur
    exact ⟨d', r, hloop, href, Nat.add_left_cancel hcur⟩
  exact Sim.init.along hdoc

theorem FollowsTokens.of_along {calloc : ℕ → Bool} {ts : List LexerOutput} {d : DocState}
    (hd : docLoop calloc (ts.map .token) .init = .ok d) (hsel : Lts.Along refToken Selectable .init ts)
    (h : ConfigHeap) : FollowsTokens calloc h ts := by
  rintro pre ⟨post, rfl⟩
  rw [List.map_append] at hd
  obtain ⟨s, d', hrun, hloop, hrel⟩ := parseLoop_left hd h
  obtain ⟨sel, href, hsim⟩ := Sim.init.run hloop hsel.left
  exact ⟨s, d'.ref sel, hrun, href, hsim.matches hrel⟩

/-- **The parser follows a file that it accepts exactly if each header is selectable**: it names the group
selected at its level, or nothing that is there, and an array header an array or nothing. The tree that is
returned is then that of the reference. -/
theorem config_tree_iff {c : ParseCall} {ts : List LexerOutput} (hc : c.results = ts.map .token)
    {h h' : ConfigHeap} {root : ℕ} (hparse : configParseFile c h = some (h', .ok root)) :
    (FollowsTokens c.calloc h ts ↔ Lts.Along refToken Selectable .init ts) ∧
      (Lts.Along refToken Selectable .init ts → ∃ r, Lts.run refToken .init ts = some r ∧ r.doc.Laid root h' ∧
        h'.next = root + r.doc.length ∧ r.doc.KeysDistinct ∧ r.doc.ItemsAreLeaves) := by
  obtain ⟨rfl, s, d, hrun, rfl, hd, -⟩ := configParseFile_ok hparse
  rw [hc] at hrun hd
  refine ⟨⟨FollowsTokens.along hd, fun hsel => .of_along hd hsel h⟩, fun hsel => ?_⟩
  obtain ⟨s', r, hrun', href, hmatch⟩ := FollowsTokens.of_along hd hsel h ts (List.prefix_refl ts)
  cases hrun.symm.trans hrun'
  exact ⟨r, href, hmatch.laid, hmatch.next, hmatch.keys, hmatch.leaves⟩

/-! ### Files -/

/-- The header of a group with a name of one letter. -/
def header (isArray : Bool) (level : ℕ) (name : UInt8) (lineno : ℕ) : LexerOutput :=
  ⟨.group, isArray, level, [name], [], lineno, List.cons_ne_nil _ _⟩

/-- An item with a name of one letter. -/
def setting (isArray : Bool) (name : UInt8) (value : List UInt8) (lineno : ℕ) : LexerOutput :=
  ⟨.item, isArray, 0, [name], value, lineno, List.cons_ne_nil _ _⟩

/-- A group with an item, a group in it with an item of an array, and the first group once more. -/
def nestedFile : List LexerOutput :=
  [header false 0 97 1, setting false 120 [49] 2, header false 1 98 3, setting true 121 [50] 4,
    header false 0 97 5, setting false 122 [51] 6]

theorem config_tree_nested :
    ∃ h', configParseFile { results := nestedFile.map .token } .empty = some (h', .ok 0) ∧
    FollowsTokens (fun _ => true) .empty nestedFile ∧
      ∃ r, Lts.run refToken .init nestedFile = some r ∧ r.doc.Laid 0 h' := by
  have hsel : Lts.Along refToken Selectable .init nestedFile := by decide
  have hparse : ∃ h', configParseFile { results := nestedFile.map .token } .empty = some (h', .ok 0) := ⟨_, rfl⟩
  obtain ⟨h', hparse⟩ := hparse
  obtain ⟨hiff, htree⟩ := config_tree_iff rfl hparse
  obtain ⟨r, hrun, hlaid, -⟩ := htree hsel
  exact ⟨h', hparse, hiff.mpr hsel, r, hrun, hlaid⟩

/-- The groups `a` and `b`, and `a` once more. -/
def reopenedFile : List LexerOutput :=
  [header false 0 97 1, setting false 120 [49] 2, header false 0 98 3, setting false 121 [50] 4,
    header false 0 97 5, setting false 122 [51] 6]

/-- An item, and an array of groups with its key. -/
def retypedFile : List LexerOutput := [setting false 97 [49] 1, header true 0 97 2]

/-- The item after a group that is opened again is filed under the root, and an array header makes an item the
parent of a group. -/
theorem not_config_tree_reopened :
    (∃ h', configParseFile { results := reopenedFile.map .token } .empty = some (h', .ok 0) ∧
      (h'.node 5).bind ConfigTreeNode.parent = some 0 ∧
      ¬ ∃ r, Lts.run refToken .init reopenedFile = some r ∧ r.doc.Laid 0 h') ∧
    ∃ h', configParseFile { results := retypedFile.map .token } .empty = some (h', .ok 0) ∧
      (h'.node 1).map ConfigTreeNode.type = some .item ∧ (h'.node 2).bind ConfigTreeNode.parent = some 1 := by
  refine ⟨⟨_, rfl, rfl, ?_⟩, _, rfl, rfl, rfl⟩
  rintro ⟨r, hrun, hlaid⟩
  -- the reference has it under `a`
  have hpar : (Lts.run refToken .init reopenedFile).map (fun r => r.doc[5]?.map ConfigEntry.parent) =
      some (some (some 1)) := rfl
  rw [hrun, Option.map_some, Option.some.injEq] at hpar
  obtain ⟨e, he, hparent⟩ := Option.map_eq_some_iff.mp hpar
  have hnode := congrArg (Option.bind · ConfigTreeNode.parent) (hlaid 5 e he)
  dsimp only [Option.bind_some, ConfigDoc.nodeAt] at hnode
  rw [hparent] at hnode
  cases hnode

end Spigeon
