import Spigeon.Proof.ConfigPrint

/-!
# Reading the lines of a configuration

The parser on the lines of a value adds the nodes of the value below the group that the lines were written for, in
their order, and nothing else (`docLoop_lines`).

* `print_parse`: what `print_tree` writes is read as the same configuration. The condition is `Writable`: there
  are no quotes around a value and no way back to a group behind a header in it, although the parser has one.
-/

namespace Spigeon

open Refine

/-! ### Growing trees -/

namespace ConfigDoc

variable {d d' : ConfigDoc} {i p q : ℕ} {is : List ℕ}

theorem getElem?_of_old (h : d <+: d') (hi : i < d.length) : d'[i]? = d[i]? := by
  obtain ⟨es, rfl⟩ := h
  exact List.getElem?_append_left hi

theorem typeOf_of_old (h : d <+: d') (hi : i < d.length) : d'.typeOf i = d.typeOf i := by
  rw [typeOf, getElem?_of_old h hi, typeOf]

theorem keyOf_of_old (h : d <+: d') (hi : i < d.length) : d'.keyOf i = d.keyOf i := by
  rw [keyOf, getElem?_of_old h hi, keyOf]

theorem par_of_old (h : d <+: d') (hi : i < d.length) : d'.par i = d.par i := by
  rw [par, getElem?_of_old h hi, par]

/-- Nodes were added, and those among them that are children of an old node are the children `is` of `q`. -/
structure Grown (d d' : ConfigDoc) (q : ℕ) (is : List ℕ) : Prop where
  old : d <+: d'
  kids : d'.kids q = d.kids q ++ is
  other : ∀ j < d.length, j ≠ q → d'.kids j = d.kids j

theorem Grown.refl (d : ConfigDoc) (q : ℕ) : Grown d d q [] :=
  ⟨List.prefix_refl d, (List.append_nil _).symm, fun _ _ _ => rfl⟩

theorem Grown.add (d : ConfigDoc) (q : ℕ) (type : NodeType) (key : List UInt8) (t : LexerOutput) :
    Grown d (d.add q type key t) q [d.length] where
  old := List.prefix_append _ _
  kids := by
    rw [ConfigDoc.add, kids_snoc]
    exact congrArg _ (if_pos rfl)
  other := by
    intro j _ hj
    have hne : ¬ some q = some j := fun h => hj (Option.some.inj h).symm
    rw [ConfigDoc.add, kids_snoc, entry, if_neg hne, List.append_nil]

theorem Grown.trans {d'' : ConfigDoc} {is' : List ℕ} (h : Grown d d' q is) (h' : Grown d' d'' q is') :
    Grown d d'' q (is ++ is') where
  old := h.old.trans h'.old
  kids := by rw [h'.kids, h.kids, List.append_assoc]
  other := fun j hj hne => (h'.other j (hj.trans_le h.old.length_le) hne).trans (h.other j hj hne)

/-- What is added below a new node leaves the old ones as they are. -/
theorem Grown.inner {d'' : ConfigDoc} {g : ℕ} {is' : List ℕ} (h : Grown d d' q is) (h' : Grown d' d'' g is')
    (hq : q < d.length) (hg : d.length ≤ g) : Grown d d'' q is where
  old := h.old.trans h'.old
  kids := by rw [h'.other q (hq.trans_le h.old.length_le) (by omega), h.kids]
  other := fun j hj hne => by
    rw [h'.other j (hj.trans_le h.old.length_le) (by omega), h.other j hj hne]

mutual

/-- A value stays when nothing is added below its nodes. They have higher numbers. -/
theorem Holds.mono (htree : d.IsTree) (hold : d <+: d') {i : ℕ}
    (hsame : ∀ j, i ≤ j → j < d.length → d'.kids j = d.kids j) :
    (v : ConfigValue) → d.Holds i v → d'.Holds i v
  | .item key value, ⟨htype, hkey, hvalue, hkids⟩ => by
    have hi := lt_length_of_type htype
    exact ⟨(typeOf_of_old hold hi).trans htype, (keyOf_of_old hold hi).trans hkey,
      by rw [getElem?_of_old hold hi, hvalue], (hsame i le_rfl hi).trans hkids⟩
  | .group key children, ⟨htype, hkey, hall⟩ => by
    have hi := lt_length_of_type htype
    refine ⟨(typeOf_of_old hold hi).trans htype, (keyOf_of_old hold hi).trans hkey, ?_⟩
    rw [hsame i le_rfl hi]
    refine HoldsAll.mono htree hold (fun k hk j hj => hsame j ?_) children hall
    exact (htree.lt (mem_kids.mp hk)).le.trans hj
  | .array key elements, ⟨htype, hkey, hall⟩ => by
    have hi := lt_length_of_type htype
    refine ⟨(typeOf_of_old hold hi).trans htype, (keyOf_of_old hold hi).trans hkey, ?_⟩
    rw [hsame i le_rfl hi]
    refine HoldsAll.mono htree hold (fun k hk j hj => hsame j ?_) elements hall
    exact (htree.lt (mem_kids.mp hk)).le.trans hj

theorem HoldsAll.mono (htree : d.IsTree) (hold : d <+: d') {is : List ℕ}
    (hsame : ∀ i ∈ is, ∀ j, i ≤ j → j < d.length → d'.kids j = d.kids j) :
    (vs : List ConfigValue) → d.HoldsAll is vs → d'.HoldsAll is vs
  | [], hall => by
    cases is with
    | nil => trivial
    | cons i is => exact hall.elim
  | v :: vs, hall => by
    cases is with
    | nil => exact hall.elim
    | cons i is =>
      exact ⟨Holds.mono htree hold (hsame i List.mem_cons_self) v hall.1,
        HoldsAll.mono htree hold (fun k hk => hsame k (List.mem_cons_of_mem _ hk)) vs hall.2⟩

end

end ConfigDoc

/-! ### One line -/

/-- Where the node of a token goes in the group `p`, and its key: a new name in the group, or an element of the
array that the token names. -/
inductive Target (d : ConfigDoc) (p : ℕ) (t : LexerOutput) : ℕ → List UInt8 → Prop
  | named (hflag : ¬ t.isArray = true) (hnew : d.child p t.key = none) : Target d p t p t.key
  | element {a : ℕ} (hflag : t.isArray = true) (hchild : d.child p t.key = some a)
    (harray : d.typeOf a = some .array) : Target d p t a []

section Line

variable {s : DocState} {sel : ℕ → ℕ} {t : LexerOutput} {p q : ℕ} {key : List UInt8}

theorem Target.docItem_eq (h : Target s.doc s.cur t q key) :
    docItem (fun _ => true) t s = .ok { s with doc := s.doc.add q .item key t } := by
  unfold docItem
  cases h with
  | named hflag hnew =>
    rw [if_neg hflag, hnew]
    rfl
  | element hflag hchild harray =>
    rw [if_pos hflag, docItemArray, hchild]
    dsimp only
    rw [if_pos harray]
    rfl

theorem Target.docOpen_eq (h : Target s.doc p t q key) :
    docOpen (fun _ => true) t p s = .ok ⟨s.doc.add q .group key t, s.doc.length, s.doc.length, t.level⟩ := by
  unfold docOpen
  cases h with
  | named hflag hnew =>
    rw [if_neg hflag, hnew]
    rfl
  | element hflag hchild harray =>
    rw [if_pos hflag, docHeaderArray, hchild]
    rfl

/-- The meaning of a header with a target. -/
theorem Target.refGroup_eq {r : RefState} (h : Target r.doc (r.above t.level) t q key) :
    refGroup t r = some ({ r with doc := r.doc.add q .group key t }.select t.level r.doc.length) := by
  unfold refGroup
  cases h with
  | named hflag hnew =>
    dsimp only
    rw [if_neg hflag, hnew]
  | element hflag hchild harray =>
    dsimp only
    rw [if_pos hflag, refArray, hchild]
    dsimp only
    rw [if_pos harray]
    rfl

theorem Target.selectable {r : RefState} (h : Target r.doc (r.above t.level) t q key) : Selectable r t := by
  intro _ g hg
  cases h with
  | named hflag hnew =>
    rw [hnew] at hg
    cases hg
  | element hflag hchild harray =>
    cases hchild.symm.trans hg
    rw [if_pos hflag]
    exact harray

theorem Target.new (h : Target s.doc p t q key) : t.isArray = true ∨ s.doc.child p t.key = none := by
  cases h with
  | named _ hnew => exact Or.inr hnew
  | element hflag => exact Or.inl hflag

/-- A header that is for an array or has a new name does not select the group that is selected. -/
theorem Sim.docGroup_eq (h : Sim s sel) (hlevel : ¬ t.level > s.topLevel + 1)
    (hnew : t.isArray = true ∨ s.doc.child ((s.ref sel).above t.level) t.key = none) :
    docGroup (fun _ => true) t s = docOpen (fun _ => true) t ((s.ref sel).above t.level) s := by
  unfold docGroup
  rw [if_neg hlevel]
  dsimp only
  split
  next hon =>
    obtain ⟨hsel, -, hup⟩ := h.selected hon
    rw [hsel, Option.getD_some, hup, Option.getD_some]
    refine if_pos (hnew.imp_right fun hnone hsame => ?_)
    rw [h.child_selected hon hsame] at hnone
    cases hnone
  next hoff =>
    have habove := h.above hlevel
    have hzero : (s.topLevel + 1 - t.level).toNat = 0 := by omega
    have hzero' : (s.topLevel - t.level).toNat = 0 := by omega
    rw [hzero] at habove
    rw [hzero', habove, Option.getD_some]

/-- **The line of an item.** -/
theorem Sim.addItem (h : Sim s sel) (htype : t.type = .item) (htarget : Target s.doc s.cur t q key) :
    docToken (fun _ => true) t s = .ok { s with doc := s.doc.add q .item key t } ∧
      Sim { s with doc := s.doc.add q .item key t } sel := by
  have htoken : docToken (fun _ => true) t s = .ok { s with doc := s.doc.add q .item key t } := by
    rw [docToken, htype]
    exact htarget.docItem_eq
  exact ⟨htoken, (h.item htarget.docItem_eq).2⟩

/-- **The line of a group.** -/
theorem Sim.addGroup (h : Sim s sel) (htype : t.type = .group) (hlevel : ¬ t.level > s.topLevel + 1)
    (htarget : Target s.doc ((s.ref sel).above t.level) t q key) :
    docToken (fun _ => true) t s = .ok ⟨s.doc.add q .group key t, s.doc.length, s.doc.length, t.level⟩ ∧
      Sim ⟨s.doc.add q .group key t, s.doc.length, s.doc.length, t.level⟩
        (Function.update sel t.level s.doc.length) := by
  have hgroup := (h.docGroup_eq hlevel htarget.new).trans htarget.docOpen_eq
  have htarget' : Target (s.ref sel).doc ((s.ref sel).above t.level) t q key := htarget
  obtain ⟨sel', href, hsim⟩ := h.group hgroup htype htarget'.selectable
  rw [htarget'.refGroup_eq] at href
  have hsel : Function.update sel t.level s.doc.length = sel' :=
    congrArg RefState.selected (Option.some.inj href)
  refine ⟨?_, hsel ▸ hsim⟩
  rw [docToken, htype]
  exact hgroup

theorem Sim.addArray (h : Sim s sel) (hp : s.doc.typeOf p = some .group) (hnew : s.doc.child p key = none)
    (t : LexerOutput) : Sim { s with doc := s.doc.add p .array key t } sel :=
  h.add (h.ok.add .array (ConfigDoc.lt_length_of_type hp) (fun _ => group_ne_array hp) key t)
    (h.good.addNew hp hnew .array t)

/-- The first element of an array that is not there yet is read as if the array were there. -/
theorem Sim.docToken_newArray (h : Sim s sel) (hp : s.doc.typeOf p = some .group) (hflag : t.isArray = true)
    (hnew : s.doc.child p t.key = none) (hitem : t.type = .item → s.cur = p)
    (hgroup : t.type = .group → ¬ t.level > s.topLevel + 1 ∧ (s.ref sel).above t.level = p) :
    docToken (fun _ => true) t s = docToken (fun _ => true) t { s with doc := s.doc.add p .array t.key t } := by
  have hsim := h.addArray hp hnew t
  have hplt := ConfigDoc.lt_length_of_type hp
  have hchild : (s.doc.add p .array t.key t).child p t.key = some s.doc.length := by
    refine hsim.good.child_eq ?_ (ConfigDoc.par_snoc _ _) (congrArg (Option.getD · []) (ConfigDoc.keyOf_snoc _ _))
      t.key_ne
    exact (ConfigDoc.typeOf_snoc_of_lt hplt).trans hp
  have htarget : Target (s.doc.add p .array t.key t) p t s.doc.length [] :=
    .element hflag hchild (ConfigDoc.typeOf_add ..)
  unfold docToken
  cases htype : t.type with
  | item =>
    dsimp only
    rw [← hitem htype] at hnew htarget ⊢
    have hright : docItem (fun _ => true) t { s with doc := s.doc.add s.cur .array t.key t } = _ :=
      htarget.docItem_eq
    rw [hright, docItem, if_pos hflag, docItemArray, hnew]
    rfl
  | group =>
    dsimp only
    obtain ⟨hlevel, rfl⟩ := hgroup htype
    have hright : docGroup (fun _ => true) t
        { s with doc := s.doc.add ((s.ref sel).above t.level) .array t.key t } = _ :=
      (hsim.docGroup_eq hlevel (Or.inl hflag)).trans htarget.docOpen_eq
    rw [hright, h.docGroup_eq hlevel (Or.inl hflag), docOpen, if_pos hflag, docHeaderArray, hnew]
    rfl

end Line

/-! ### Where values are written -/

namespace ConfigDoc

variable {d d' : ConfigDoc} {p q i : ℕ} {array : Option (List UInt8)} {v : ConfigValue} {vs : List ConfigValue}

def name (d : ConfigDoc) (j : ℕ) : List UInt8 := (d.keyOf j).getD []

/-- The values can be children of `q`, which is the group `p` or an array in it: in a group all names are
distinct. -/
inductive Place (d : ConfigDoc) (p : ℕ) (vs : List ConfigValue) : Option (List UInt8) → ℕ → Prop
  | group (hnames : ((d.kids p).map d.name ++ vs.map ConfigValue.key).Nodup) : Place d p vs none p
  | array {a : ℕ} {key : List UInt8} (hpar : d.par a = some p) (harray : d.typeOf a = some .array)
    (hkey : d.keyOf a = some key) : Place d p vs (some key) a

theorem Place.child_none (hnames : ((d.kids p).map d.name ++ (v :: vs).map ConfigValue.key).Nodup) :
    d.child p v.key = none := by
  refine List.find?_eq_none.2 fun j hj => ?_
  have hdisj := (List.nodup_append.1 hnames).2.2 (d.name j) (List.mem_map_of_mem hj) v.key List.mem_cons_self
  simpa [name] using hdisj

/-- The token of a value has a target. -/
theorem Place.target (hd : d.Good) (hp : d.typeOf p = some .group) (h : Place d p (v :: vs) array q)
    (hunnamed : array.isSome → v.key = []) {t : LexerOutput} (hflag : t.isArray = array.isSome)
    (hkey : t.key = array.getD v.key) : Target d p t q v.key := by
  cases h with
  | group hnames =>
    have hname : t.key = v.key := hkey
    rw [← hname]
    refine .named (by rw [hflag]; decide) ?_
    rw [hname]
    exact Place.child_none hnames
  | array hpar harray hkey' =>
    rw [hunnamed rfl]
    refine .element hflag (hd.child_eq hp hpar ?_ t.key_ne) harray
    rw [hkey', hkey]
    rfl

theorem map_name (hold : d <+: d') (p : ℕ) : (d.kids p).map d'.name = (d.kids p).map d.name := by
  refine List.map_congr_left fun j hj => ?_
  rw [name, keyOf_of_old hold (lt_length_of_par (mem_kids.mp hj)), name]

/-- The other values can be written behind the first one. -/
theorem Place.next (h : Place d p (v :: vs) array q) (hgrown : Grown d d' q [i]) (hkey : d'.name i = v.key) :
    Place d' p vs array q := by
  cases h with
  | group hnames =>
    refine .group ?_
    rw [hgrown.kids, List.map_append, map_name hgrown.old, List.append_assoc]
    rw [List.map_cons, List.map_nil, hkey]
    exact hnames
  | array hpar harray hkey =>
    have hlt := lt_length_of_par hpar
    exact .array ((par_of_old hgrown.old hlt).trans hpar) ((typeOf_of_old hgrown.old hlt).trans harray)
      ((keyOf_of_old hgrown.old hlt).trans hkey)

theorem Place.lt (hp : p < d.length) (h : Place d p vs array q) : q < d.length := by
  cases h with
  | group => exact hp
  | array hpar => exact lt_length_of_par hpar

/-- The values of which the first one is `i` are held when the others are added behind it. -/
theorem HoldsAll.cons {is : List ℕ} (htree : d.IsTree) (hgrown : Grown d d' q is) (hq : q < i)
    (hv : d.Holds i v) (hvs : d'.HoldsAll is vs) : d'.HoldsAll (i :: is) (v :: vs) := by
  refine ⟨Holds.mono htree hgrown.old (fun j hij hj => hgrown.other j hj ?_) v hv, hvs⟩
  omega

theorem Holds.key_eq (h : d.Holds i v) : d.name i = v.key := by
  cases v with
  | item key value => rw [name, h.2.1]; rfl
  | group key children => rw [name, h.2.1]; rfl
  | array key elements => rw [name, h.2.1]; rfl

theorem kids_add_self (htree : d.IsTree) (hq : q < d.length) (type : NodeType) (key : List UInt8)
    (t : LexerOutput) :
    (d.add q type key t).kids d.length = [] := by
  have hne : ¬ some q = some d.length := fun h => absurd (Option.some.inj h) hq.ne
  rw [ConfigDoc.add, kids_snoc, htree.kids_length, entry, if_neg hne]
  rfl

end ConfigDoc

/-! ### All lines -/

/-- The parser can read lines of this level for the group `p`. As long as no header was read there, it is at the
group. -/
structure DocState.At (s : DocState) (sel : ℕ → ℕ) (level p : ℕ) (closed : Bool) : Prop where
  sim : Sim s sel
  level_le : ¬ (level : ℤ) > s.topLevel + 1
  above : (s.ref sel).above level = p
  cur : closed = false → s.cur = p

section Run

variable {s : DocState} {sel : ℕ → ℕ} {level p q : ℕ} {closed : Bool}

theorem DocState.At.group (h : s.At sel level p closed) : s.doc.typeOf p = some .group := by
  obtain rfl := h.above
  cases level with
  | zero => exact h.sim.good.type_climb h.sim.top_group h.sim.root
  | succ k =>
    have hlevel := h.level_le
    exact h.sim.good.type_climb h.sim.top_group (h.sim.stack k (by omega))

theorem DocState.At.lt (h : s.At sel level p closed) : p < s.doc.length := ConfigDoc.lt_length_of_type h.group

/-- The parser behind the lines of values: they are the children `is` that `q` has got. -/
structure DocState.Behind (s : DocState) (sel : ℕ → ℕ) (level p q : ℕ) (closed' : Bool) (vs : List ConfigValue)
    (s' : DocState) (sel' : ℕ → ℕ) (is : List ℕ) : Prop where
  at_ : s'.At sel' level p closed'
  selected : ∀ l < level, sel' l = sel l
  grown : ConfigDoc.Grown s.doc s'.doc q is
  holds : s'.doc.HoldsAll is vs

variable {array : Option (List UInt8)} {key value : List UInt8} {vs : List ConfigValue} {t : LexerOutput}

/-- The line of an item. -/
theorem DocState.At.readItem (h : s.At sel level p false) (hplace : s.doc.Place p (.item key value :: vs) array q)
    (hunnamed : array.isSome → key = []) (ht : t.Says ⟨.item, array.isSome, level, array.getD key, value⟩) :
    ∃ s₁, docToken (fun _ => true) t s = .ok s₁ ∧
      s.Behind sel level p q false [.item key value] s₁ sel [s.doc.length] := by
  have htarget := hplace.target h.sim.good h.group hunnamed ht.isArray ht.key
  rw [← h.cur rfl] at htarget
  obtain ⟨htoken, hsim⟩ := h.sim.addItem ht.type htarget
  refine ⟨_, htoken, ⟨hsim, h.level_le, h.above, fun _ => h.cur rfl⟩, fun _ _ => rfl, .add .., ⟨?_, trivial⟩⟩
  refine ⟨ConfigDoc.typeOf_add .., ConfigDoc.keyOf_snoc _ _, ?_,
    ConfigDoc.kids_add_self h.sim.ok.tree (hplace.lt h.lt) _ _ _⟩
  have hvalue : t.value = value := ht.value
  simp [ConfigDoc.add, ConfigDoc.entry, hvalue]

/-- The header of a group: the parser is in the new group. -/
theorem DocState.At.readHeader {children : List ConfigValue} (h : s.At sel level p closed)
    (hplace : s.doc.Place p (.group key children :: vs) array q) (hunnamed : array.isSome → key = [])
    (ht : t.Says ⟨.group, array.isSome, level, array.getD key, []⟩) :
    ∃ s₁, docToken (fun _ => true) t s = .ok s₁ ∧ s₁.doc = s.doc.add q .group key t ∧
      s₁.At (Function.update sel level s.doc.length) (level + 1) s.doc.length false := by
  have hlevel : t.level = level := ht.level ht.type
  have htarget := hplace.target h.sim.good h.group hunnamed ht.isArray ht.key
  have hbound := h.level_le
  have habove := h.above
  rw [← hlevel] at hbound habove ⊢
  rw [← habove] at htarget
  obtain ⟨htoken, hsim⟩ := h.sim.addGroup ht.type hbound htarget
  refine ⟨_, htoken, rfl, hsim, ?_, Function.update_self .., fun _ => rfl⟩
  dsimp only
  omega

/-- Lines of a group do not change what is selected above it. -/
theorem DocState.At.leave {s' : DocState} {sel' : ℕ → ℕ} {g : ℕ} {inner : Bool} (h : s.At sel level p closed)
    (h' : s'.At sel' (level + 1) g inner) (hsel : ∀ l < level, sel' l = sel l) : s'.At sel' level p true where
  sim := h'.sim
  level_le := by
    have := h'.level_le
    omega
  above := by
    rw [← h.above]
    cases level with
    | zero => rfl
    | succ k => exact hsel k (Nat.lt_succ_self k)
  cur := fun hfalse => by cases hfalse

/-- The first line of the elements of an array. -/
theorem Writable.first {elements : List ConfigValue} {inner : Bool} (h : Writable true closed elements inner)
    (hne : elements ≠ []) (level : ℕ) (key : List UInt8) :
    ∃ l ls, ConfigValue.linesAll level (some key) elements = l :: ls ∧ l.isArray = true ∧ l.key = key ∧
      l.level = level ∧ (l.type = .item → closed = false) := by
  cases h with
  | nil => exact absurd rfl hne
  | item => exact ⟨_, _, rfl, rfl, rfl, rfl, fun _ => rfl⟩
  | group => exact ⟨_, _, rfl, rfl, rfl, rfl, fun h => by cases h⟩

/-- One value, and then the others. -/
theorem DocState.Behind.cons {s₁ s' : DocState} {sel₁ sel' : ℕ → ℕ} {i : ℕ} {is : List ℕ} {closed₁ closed' : Bool}
    {v : ConfigValue} (h : s.Behind sel level p q closed₁ [v] s₁ sel₁ [i])
    (h' : s₁.Behind sel₁ level p q closed' vs s' sel' is) (hq : q < i) :
    s.Behind sel level p q closed' (v :: vs) s' sel' (i :: is) where
  at_ := h'.at_
  selected := fun l hl => (h'.selected l hl).trans (h.selected l hl)
  grown := h.grown.trans h'.grown
  holds := .cons h.at_.sim.ok.tree h'.grown hq h.holds.1 h'.holds

/-- A new group with its children. -/
theorem DocState.Behind.newGroup {s₁ s₂ : DocState} {sel₂ : ℕ → ℕ} {is : List ℕ} {inner : Bool}
    {children : List ConfigValue} (h : s.At sel level p closed) (hq : q < s.doc.length)
    (hdoc : s₁.doc = s.doc.add q .group key t)
    (h₂ : s₁.Behind (Function.update sel level s.doc.length) (level + 1) s.doc.length s.doc.length inner children
      s₂ sel₂ is) :
    s.Behind sel level p q true [.group key children] s₂ sel₂ [s.doc.length] := by
  have hsel : ∀ l < level, sel₂ l = sel l := fun l hl =>
    (h₂.selected l (by omega)).trans (Function.update_of_ne hl.ne _ _)
  have hlt : s.doc.length < s₁.doc.length := by simp [hdoc, ConfigDoc.add]
  have hgrown : ConfigDoc.Grown s.doc s₁.doc q [s.doc.length] := hdoc ▸ .add ..
  have hkids : s₂.doc.kids s.doc.length = is := by
    rw [h₂.grown.kids, hdoc, ConfigDoc.kids_add_self h.sim.ok.tree hq, List.nil_append]
  refine ⟨h.leave h₂.at_ hsel, hsel, hgrown.inner h₂.grown hq le_rfl, ⟨?_, ?_, ?_⟩, trivial⟩
  · rw [ConfigDoc.typeOf_of_old h₂.grown.old hlt, hdoc]
    exact ConfigDoc.typeOf_add ..
  · rw [ConfigDoc.keyOf_of_old h₂.grown.old hlt, hdoc]
    exact ConfigDoc.keyOf_snoc _ _
  · rw [hkids]
    exact h₂.holds

/-- A new array with its elements. -/
theorem DocState.Behind.newArray {s₂ : DocState} {sel₂ : ℕ → ℕ} {is : List ℕ} {inner : Bool}
    {elements : List ConfigValue} (h : s.At sel level p closed)
    (h₂ : Behind { s with doc := s.doc.add p .array key t } sel level p s.doc.length inner elements s₂ sel₂ is) :
    s.Behind sel level p p inner [.array key elements] s₂ sel₂ [s.doc.length] := by
  have hlt : s.doc.length < (s.doc.add p .array key t).length := by simp [ConfigDoc.add]
  have hkids : s₂.doc.kids s.doc.length = is := by
    rw [h₂.grown.kids, ConfigDoc.kids_add_self h.sim.ok.tree h.lt, List.nil_append]
  have hgrown : ConfigDoc.Grown s.doc (s.doc.add p .array key t) p [s.doc.length] := .add ..
  refine ⟨h₂.at_, h₂.selected, hgrown.inner h₂.grown h.lt le_rfl, ⟨?_, ?_, ?_⟩, trivial⟩
  · exact (ConfigDoc.typeOf_of_old h₂.grown.old hlt).trans (ConfigDoc.typeOf_add ..)
  · exact (ConfigDoc.keyOf_of_old h₂.grown.old hlt).trans (ConfigDoc.keyOf_snoc _ _)
  · rw [hkids]
    exact h₂.holds

theorem says_append {ts : List LexerOutput} {ls ls' : List ConfigLine}
    (h : List.Forall₂ LexerOutput.Says ts (ls ++ ls')) :
    ∃ us us', ts = us ++ us' ∧ List.Forall₂ LexerOutput.Says us ls ∧ List.Forall₂ LexerOutput.Says us' ls' :=
  ⟨_, _, (List.take_append_drop ls.length ts).symm, List.forall₂_take_append ts ls ls' h,
    List.forall₂_drop_append ts ls ls' h⟩

theorem docLoop_append_ok {us us' : List LexerOutput} {s s₁ s' : DocState}
    (h : docLoop (fun _ => true) (us.map .token) s = .ok s₁)
    (h' : docLoop (fun _ => true) (us'.map .token) s₁ = .ok s') :
    docLoop (fun _ => true) ((us ++ us').map .token) s = .ok s' := by
  rw [List.map_append, docLoop_append, h]
  exact h'

/-- **The parser reads what was written.** -/
theorem docLoop_lines {inArray closed' : Bool} (hw : Writable inArray closed vs closed')
    (hsome : array.isSome = inArray) (h : s.At sel level p closed) (hplace : s.doc.Place p vs array q)
    {ts : List LexerOutput} (hts : List.Forall₂ LexerOutput.Says ts (ConfigValue.linesAll level array vs)) :
    ∃ s' sel' is, docLoop (fun _ => true) (ts.map .token) s = .ok s' ∧
      s.Behind sel level p q closed' vs s' sel' is := by
  induction hw generalizing s sel level p q array ts with
  | nil =>
    cases hts
    exact ⟨s, sel, [], rfl, h, fun _ _ => rfl, .refl .., trivial⟩
  | @item inArray closed' key value vs hkey _ _ ih =>
    subst hsome
    rw [ConfigValue.linesAll, ConfigValue.lines, List.singleton_append] at hts
    obtain ⟨t, ts, ht, hrest, rfl⟩ := List.forall₂_cons_right_iff.1 hts
    have hunnamed : array.isSome → key = [] := fun harray => by rwa [if_pos harray] at hkey
    obtain ⟨s₁, htoken, h₁⟩ := h.readItem hplace hunnamed ht
    obtain ⟨s', sel', is, hloop, h'⟩ := ih rfl h₁.at_ (hplace.next h₁.grown h₁.holds.1.key_eq) hrest
    refine ⟨s', sel', s.doc.length :: is, ?_, h₁.cons h' (hplace.lt h.lt)⟩
    rw [List.map_cons, docLoop, htoken]
    exact hloop
  | @group inArray closed inner closed' key children vs hkey hkeys _ _ ihchildren ih =>
    subst hsome
    rw [ConfigValue.linesAll, ConfigValue.lines, List.cons_append] at hts
    obtain ⟨t, ts, ht, hrest, rfl⟩ := List.forall₂_cons_right_iff.1 hts
    obtain ⟨us, us', rfl, hchildren, hrest⟩ := says_append hrest
    have hunnamed : array.isSome → key = [] := fun harray => by rwa [if_pos harray] at hkey
    obtain ⟨s₁, htoken, hdoc, h₁⟩ := h.readHeader hplace hunnamed ht
    have hkids : s₁.doc.kids s.doc.length = [] := by
      rw [hdoc]
      exact ConfigDoc.kids_add_self h.sim.ok.tree (hplace.lt h.lt) _ _ _
    obtain ⟨s₂, sel₂, is₂, hloop₂, h₂⟩ := ihchildren rfl h₁ (.group (by rw [hkids]; exact hkeys)) hchildren
    have hbehind := DocState.Behind.newGroup h (hplace.lt h.lt) hdoc h₂
    obtain ⟨s', sel', is, hloop, h'⟩ := ih rfl hbehind.at_ (hplace.next hbehind.grown hbehind.holds.1.key_eq)
      hrest
    refine ⟨s', sel', s.doc.length :: is, ?_, hbehind.cons h' (hplace.lt h.lt)⟩
    rw [List.map_cons, docLoop, htoken]
    exact docLoop_append_ok hloop₂ hloop
  | @array closed inner closed' key elements vs hkey hne helements _ ihelements ih =>
    rw [ConfigValue.linesAll, ConfigValue.lines] at hts
    obtain ⟨us, us', rfl, hus, hrest⟩ := says_append hts
    cases hplace with
    | array => cases hsome
    | group hnames =>
      have hnew := ConfigDoc.Place.child_none hnames
      -- the first element adds the array
      obtain ⟨l, ls, hlines, hflag, hlkey, hllevel, hlitem⟩ := helements.first hne level key
      rw [hlines] at hus
      obtain ⟨t, us, ht, husr, rfl⟩ := List.forall₂_cons_right_iff.1 hus
      have htkey : t.key = key := ht.key.trans hlkey
      have hfirst : docToken (fun _ => true) t s =
          docToken (fun _ => true) t { s with doc := s.doc.add p .array key t } := by
        rw [← htkey]
        refine h.sim.docToken_newArray h.group (ht.isArray.trans hflag) (by rw [htkey]; exact hnew)
          (fun htype => h.cur (hlitem (ht.type.symm.trans htype))) fun htype => ?_
        have htlevel : t.level = level := (ht.level htype).trans hllevel
        rw [htlevel]
        exact ⟨h.level_le, h.above⟩
      have hsim := h.sim.addArray h.group hnew t
      have h₁ : DocState.At { s with doc := s.doc.add p .array key t } sel level p closed :=
        ⟨hsim, h.level_le, h.above, h.cur⟩
      have hplace₁ : (s.doc.add p .array key t).Place p elements (some key) s.doc.length :=
        .array (ConfigDoc.par_snoc _ _) (ConfigDoc.typeOf_add ..) (ConfigDoc.keyOf_snoc _ _)
      obtain ⟨s₂, sel₂, is₂, hloop₂, h₂⟩ := ihelements rfl h₁ hplace₁ (hlines ▸ hus)
      have hbehind := DocState.Behind.newArray h h₂
      have hplace₂ := (ConfigDoc.Place.group hnames).next hbehind.grown hbehind.holds.1.key_eq
      obtain ⟨s', sel', is, hloop, h'⟩ := ih rfl hbehind.at_ hplace₂ hrest
      refine ⟨s', sel', s.doc.length :: is, docLoop_append_ok ?_ hloop, hbehind.cons h' h.lt⟩
      rw [List.map_cons, docLoop, hfirst]
      exact hloop₂

end Run

/-! ### The round trip -/

/-- The parser on the lines of values that can be written. -/
theorem docLoop_init {vs : List ConfigValue} {closed : Bool} (hw : Writable false false vs closed)
    (hkeys : (vs.map ConfigValue.key).Nodup) {ts : List LexerOutput}
    (hts : List.Forall₂ LexerOutput.Says ts (ConfigValue.linesAll 0 none vs)) :
    ∃ s sel, docLoop (fun _ => true) (ts.map .token) .init = .ok s ∧ Sim s sel ∧ s.doc.typeOf 0 = some .group ∧
      s.doc.IsForest vs := by
  have hat : DocState.init.At (fun _ => 0) 0 0 false := ⟨Sim.init, by decide, rfl, fun _ => rfl⟩
  obtain ⟨s, sel, is, hloop, h⟩ := docLoop_lines hw rfl hat (.group hkeys) hts
  refine ⟨s, sel, hloop, h.at_.sim, h.at_.group, ?_⟩
  rw [ConfigDoc.IsForest, h.grown.kids]
  exact h.holds

/-- **What `print_tree` writes is read as the same configuration**, if it can be written, and printing that
gives the same text again. -/
theorem print_parse {d : ConfigDoc} {base : ℕ} {h : ConfigHeap} (hlaid : d.Laid base h) (htree : d.IsTree)
    (hnext : base + d.length ≤ h.next) (hroot : d.typeOf 0 = some .group) {vs : List ConfigValue}
    (hforest : d.IsForest vs) (hkeys : (vs.map ConfigValue.key).Nodup) {closed : Bool}
    (hw : Writable false false vs closed) (heap : ConfigHeap) :
    ∃ (text : List UInt8) (heap' : ConfigHeap) (d' : ConfigDoc), printTree h base 0 = some text ∧
      configParseText text heap = some (heap', .ok heap.next) ∧ d'.Laid heap.next heap' ∧ d'.IsForest vs ∧
      printTree heap' heap.next 0 = some text := by
  have hlines : ∀ l ∈ ConfigValue.linesAll 0 none vs, LineText l :=
    lineText_of_writable hw rfl (fun k hk => by simp at hk) 0
  obtain ⟨ts, hts, hlex⟩ := lexFile_lines hlines
  obtain ⟨s, sel, hloop, hsim, htype, hforest'⟩ := docLoop_init hw hkeys hts
  have hrefines := parseLoop_init (fun _ => true) (ts.map .token) heap
  rw [hloop] at hrefines
  obtain ⟨s', hrun, hrel⟩ := hrefines
  have hparse : configParseText ((ConfigValue.linesAll 0 none vs).flatMap ConfigLine.text) heap =
      some (s'.heap, .ok heap.next) := by
    unfold configParseText
    rw [hlex, configParseFile]
    dsimp only
    rw [hrun]
    rfl
  exact ⟨_, s'.heap, s.doc, hlaid.printTree htree (by omega) hroot hforest hlines, hparse, hrel.laid, hforest',
    hrel.laid.printTree hsim.good.tree (by rw [hrel.next]; omega) htype hforest' hlines⟩

/-- The heap that holds only this tree. -/
def ConfigDoc.heap (d : ConfigDoc) : ConfigHeap := ⟨fun i => d[i]?.map (d.nodeAt 0 i), d.length, []⟩

theorem ConfigDoc.laid_heap (d : ConfigDoc) : d.Laid 0 d.heap := by
  intro i e he
  rw [Nat.zero_add]
  exact congrArg (Option.map (d.nodeAt 0 i)) he

/-- An item, an array of two items, and a group with an item. -/
def smallDoc : ConfigDoc :=
  [⟨none, .group, none, none, 0⟩, ⟨some 0, .item, some [97], some [49], 1⟩, ⟨some 0, .array, some [120], none, 2⟩,
    ⟨some 2, .item, some [], some [50], 2⟩, ⟨some 2, .item, some [], some [], 3⟩,
    ⟨some 0, .group, some [103], none, 4⟩, ⟨some 5, .item, some [98], some [121], 5⟩]

def smallValues : List ConfigValue :=
  [.item [97] [49], .array [120] [.item [] [50], .item [] []], .group [103] [.item [98] [121]]]

theorem smallValues_writable : Writable false false smallValues true := by
  have helements : Writable true false [.item [] [50], .item [] []] false :=
    .item rfl (by decide) (.item rfl (by decide) (.nil ..))
  have hgroup : Writable false false [.group [103] [.item [98] [121]]] true :=
    .group (by decide) (by decide) (.item (by decide) (by decide) (.nil ..)) (.nil ..)
  exact .item (by decide) (by decide) (.array (by decide) (by decide) helements hgroup)

theorem print_parse_small : ∃ (heap' : ConfigHeap) (d' : ConfigDoc),
    printTree smallDoc.heap 0 0 = some (CStr.bytes "a:1\n@x:2\n@x:\n[g]\n  b:y\n") ∧
      configParseText (CStr.bytes "a:1\n@x:2\n@x:\n[g]\n  b:y\n") .empty = some (heap', .ok 0) ∧
      d'.IsForest smallValues := by
  have htree : smallDoc.IsTree := by
    refine ⟨by decide, rfl, fun j hpos hj => ?_⟩
    have hall : ∀ j < 7, 0 < j → ∃ p < j, smallDoc.par j = some p := by decide
    exact hall j hj hpos
  have hforest : smallDoc.IsForest smallValues :=
    ⟨⟨rfl, rfl, rfl, rfl⟩, ⟨rfl, rfl, ⟨rfl, rfl, rfl, rfl⟩, ⟨rfl, rfl, rfl, rfl⟩, trivial⟩,
      ⟨rfl, rfl, ⟨rfl, rfl, rfl, rfl⟩, trivial⟩, trivial⟩
  obtain ⟨text, heap', d', hprint, hparse, -, hforest', -⟩ :=
    print_parse smallDoc.laid_heap htree (by decide) rfl hforest (by decide) smallValues_writable .empty
  have htext : printTree smallDoc.heap 0 0 = some (CStr.bytes "a:1\n@x:2\n@x:\n[g]\n  b:y\n") := by decide +kernel
  cases htext.symm.trans hprint
  exact ⟨heap', d', htext, hparse, hforest'⟩

/-- `x` is an item of `g`, behind the group `h`: its line is read as an item of `h`. -/
example : (configParseText (CStr.bytes "[g]\n[.h]\n[g]\nx:1\n") .empty).bind (fun r => printTree r.1 0 0) =
      some (CStr.bytes "[g]\n  [.h]\n  x:1\n") ∧
    (configParseText (CStr.bytes "[g]\n[.h]\n[g]\nx:1\n") .empty).bind
      (fun r => configLookup r.1 ⟨some 0, none⟩ (CStr.bytes "g/x")) = some (some 3) ∧
    (configParseText (CStr.bytes "[g]\n  [.h]\n  x:1\n") .empty).bind
      (fun r => configLookup r.1 ⟨some 0, none⟩ (CStr.bytes "g/x")) = some none := by decide +kernel

end Spigeon
