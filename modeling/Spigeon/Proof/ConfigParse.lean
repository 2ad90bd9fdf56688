import Spigeon.Lib.Refine
import Spigeon.Proof.ConfigHeap

/-!
# The parser on trees

`docToken` is the parser of `config.c` on a tree instead of a heap. The parser does the same on a heap that
holds the tree (`parseLoop_refines`), and so never follows a bad pointer: from the top of the stack it
can climb as often as the level of the stack says (`DocState.Ok`).
-/

namespace Spigeon

open Refine

/-- The variables of the parser, with a tree. -/
structure DocState where
  doc : ConfigDoc
  cur : ℕ
  stackTop : ℕ
  topLevel : ℤ

def DocState.init : DocState := ⟨.init, 0, 0, -1⟩

abbrev DocM := Except (ConfigError × DocState)

section Parser

variable (calloc : ℕ → Bool)

def docAdd (type : NodeType) (key : List UInt8) (t : LexerOutput) (parent : ℕ) (s : DocState) :
    DocM (ℕ × DocState) :=
  if calloc s.doc.length then .ok (s.doc.length, { s with doc := s.doc.add parent type key t })
  else .error (.system ENOMEM, s)

def docItemArray (t : LexerOutput) (s : DocState) : DocM (ℕ × DocState) :=
  match s.doc.child s.cur t.key with
  | none => docAdd calloc .array t.key t s.cur s
  | some a =>
    if s.doc.typeOf a = some .array then .ok (a, s)
    else .error (.defined t.lineno t.key (s.doc.linenoOf a), s)

def docItem (t : LexerOutput) (s : DocState) : DocM DocState :=
  if t.isArray then do
    let (parent, s) ← docItemArray calloc t s
    let (_, s) ← docAdd calloc .item [] t parent s
    pure s
  else
    match s.doc.child s.cur t.key with
    | some a => .error (.defined t.lineno t.key (s.doc.linenoOf a), s)
    | none => do
      let (_, s) ← docAdd calloc .item t.key t s.cur s
      pure s

def docHeaderArray (t : LexerOutput) (cur : ℕ) (s : DocState) : DocM (ℕ × DocState) :=
  match s.doc.child cur t.key with
  | none => docAdd calloc .array t.key t cur s
  | some a => .ok (a, s)

def docPush (key : List UInt8) (t : LexerOutput) (parent : ℕ) (s : DocState) : DocM DocState := do
  let (g, s) ← docAdd calloc .group key t parent s
  pure { s with cur := g, stackTop := g, topLevel := t.level }

def docOpen (t : LexerOutput) (cur : ℕ) (s : DocState) : DocM DocState :=
  if t.isArray then do
    let (parent, s) ← docHeaderArray calloc t cur s
    docPush calloc [] t parent s
  else
    match s.doc.child cur t.key with
    | none => docPush calloc t.key t cur s
    | some g =>
      if s.doc.typeOf g = some .group then .ok { s with cur := cur }
      else .error (.defined t.lineno t.key (s.doc.linenoOf g), s)

def docGroup (t : LexerOutput) (s : DocState) : DocM DocState :=
  if t.level > s.topLevel + 1 then .error (.groupLevel t.lineno, s)
  else
    let cur := (s.doc.climb (s.topLevel - t.level).toNat s.stackTop).getD 0
    if t.level ≤ s.topLevel then
      if t.isArray ∨ (s.doc.keyOf cur).getD [] ≠ t.key then docOpen calloc t ((s.doc.up cur).getD 0) s
      else .ok { s with cur := cur }
    else docOpen calloc t cur s

def docToken (t : LexerOutput) (s : DocState) : DocM DocState :=
  match t.type with
  | .item => docItem calloc t s
  | .group => docGroup calloc t s

def docLoop : List LexerResult → DocState → DocM DocState
  | [], s => .ok s
  | .syntaxError lineno :: _, s => .error (.syntaxError lineno, s)
  | .token t :: rest, s => do
    let s ← docToken calloc t s
    docLoop rest s

end Parser

/-! ### Refinement -/

/-- The state of the parser on a heap that holds the tree at `base`, with the nodes `freed` before. -/
structure Rel (base : ℕ) (freed : List ℕ) (s : ParseState) (d : DocState) : Prop where
  laid : d.doc.Laid base s.heap
  tree : d.doc.IsTree
  next : s.heap.next = base + d.doc.length
  freed_eq : s.heap.freed = freed
  calls : s.calls = d.doc.length
  cur : s.cur = base + d.cur
  stackTop : s.stackTop = base + d.stackTop
  topLevel : s.topLevel = d.topLevel

section Refinement

variable {base : ℕ} {freed : List ℕ} {calloc : ℕ → Bool}

/-- A node with the state after it. -/
def RelNode (base : ℕ) (freed : List ℕ) (a : ℕ × ParseState) (b : ℕ × DocState) : Prop :=
  a.1 = base + b.1 ∧ Rel base freed a.2 b.2 ∧ b.1 < b.2.doc.length

variable {s : ParseState} {d : DocState} {t : LexerOutput} {p : ℕ}

theorem addNode_refines (h : Rel base freed s d) (type : NodeType) (key : List UInt8) (hp : p < d.doc.length) :
    Refines (Rel base freed) (RelNode base freed) (addNode calloc type key t (base + p) s)
      (docAdd calloc type key t p d) := by
  unfold addNode docAdd
  rw [h.calls]
  split
  next =>
    obtain ⟨h', hadd, hlaid, hnext, hfreed⟩ :=
      h.laid.addChild h.tree (e := ConfigDoc.entry p type key t) rfl hp h.next
    have hlen : (d.doc.add p type key t).length = d.doc.length + 1 := by simp [ConfigDoc.add]
    refine ⟨(s.heap.next, { s with heap := h', calls := d.doc.length + 1 }), ?_, h.next, ?_, ?_⟩
    · have hadd' : (s.heap.alloc
          { type := type, key := some key, value := if type = .item then some t.value else none,
            lineno := t.lineno }).addChild (base + p) s.heap.next = some h' := hadd
      dsimp only
      rw [hadd', lift_bind]
      rfl
    · refine ⟨hlaid, h.tree.snoc rfl hp, ?_, hfreed.trans h.freed_eq, hlen.symm, h.cur, h.stackTop, h.topLevel⟩
      change h'.next = base + (d.doc.add p type key t).length
      rw [hnext, h.next, hlen, Nat.add_assoc]
    · change d.doc.length < (d.doc.add p type key t).length
      rw [hlen]
      exact Nat.lt_succ_self _
  next => exact .error h _

theorem Rel.findChild (h : Rel base freed s d) (hp : p < d.doc.length) (key : List UInt8) :
    s.heap.findChild (base + p) key = some ((d.doc.child p key).map (base + ·)) :=
  h.laid.findChild hp (by rw [h.next]; omega) key

theorem child_spec {doc : ConfigDoc} {key : List UInt8} {j : ℕ} (h : doc.child p key = some j) :
    doc.par j = some p ∧ (doc.keyOf j).getD [] = key :=
  ⟨ConfigDoc.mem_kids.mp (List.mem_of_find?_eq_some h), by simpa using List.find?_some h⟩

/-- The type and the line of a node. -/
theorem Rel.node (h : Rel base freed s d) {a : ℕ} (ha : a < d.doc.length) :
    ∃ n, s.heap.node (base + a) = some n ∧ d.doc.typeOf a = some n.type ∧ d.doc.linenoOf a = n.lineno ∧
      d.doc.keyOf a = n.key := by
  obtain ⟨e, he, hnode⟩ := h.laid.node ha
  exact ⟨_, hnode, by simp [ConfigDoc.typeOf, he, ConfigDoc.nodeAt],
    by simp [ConfigDoc.linenoOf, he, ConfigDoc.nodeAt], by simp [ConfigDoc.keyOf, he, ConfigDoc.nodeAt]⟩

theorem itemArray_refines (h : Rel base freed s d) (hcur : d.cur < d.doc.length) :
    Refines (Rel base freed) (RelNode base freed)
      (itemArray calloc t ((d.doc.child d.cur t.key).map (base + ·)) s) (docItemArray calloc t d) := by
  unfold itemArray docItemArray
  cases hchild : d.doc.child d.cur t.key with
  | none =>
    rw [h.cur]
    exact addNode_refines h _ _ hcur
  | some a =>
    have ha := ConfigDoc.lt_length_of_par (child_spec hchild).1
    obtain ⟨n, hn, htype, hline, -⟩ := h.node ha
    simp only [Option.map_some, hn, lift_bind, htype, hline, Option.some.injEq]
    split
    next => exact .ok ⟨rfl, h, ha⟩
    next => exact .error h _

theorem parseItem_refines (h : Rel base freed s d) (hcur : d.cur < d.doc.length) :
    Refines (Rel base freed) (Rel base freed) (parseItem calloc t s) (docItem calloc t d) := by
  unfold parseItem docItem
  rw [h.cur, h.findChild hcur, lift_bind, ← h.cur]
  split
  next =>
    refine (itemArray_refines h hcur).bind ?_
    rintro ⟨_, s'⟩ ⟨a, d'⟩ - ⟨rfl, h', ha⟩
    refine (addNode_refines h' _ _ ha).bind ?_
    rintro ⟨_, s''⟩ ⟨b, d''⟩ - ⟨-, h'', -⟩
    exact .ok h''
  next =>
    cases hchild : d.doc.child d.cur t.key with
    | some a =>
      obtain ⟨n, hn, -, hline, -⟩ := h.node (ConfigDoc.lt_length_of_par (child_spec hchild).1)
      simp only [Option.map_some, hn, lift_bind, hline]
      exact .error h _
    | none =>
      simp only [Option.map_none]
      rw [h.cur]
      refine (addNode_refines h _ _ hcur).bind ?_
      rintro ⟨_, s'⟩ ⟨b, d'⟩ - ⟨-, h', -⟩
      exact .ok h'

theorem headerArray_refines (h : Rel base freed s d) {cur : ℕ} (hcur : cur < d.doc.length) :
    Refines (Rel base freed) (RelNode base freed)
      (headerArray calloc t (base + cur) ((d.doc.child cur t.key).map (base + ·)) s)
      (docHeaderArray calloc t cur d) := by
  unfold headerArray docHeaderArray
  cases hchild : d.doc.child cur t.key with
  | none => exact addNode_refines h _ _ hcur
  | some a => exact .ok ⟨rfl, h, ConfigDoc.lt_length_of_par (child_spec hchild).1⟩

theorem pushGroup_refines (h : Rel base freed s d) (key : List UInt8) (hp : p < d.doc.length) :
    Refines (Rel base freed) (Rel base freed)
      (pushGroup calloc key t (base + p) s) (docPush calloc key t p d) := by
  refine (addNode_refines h _ _ hp).bind ?_
  rintro ⟨_, s'⟩ ⟨g, d'⟩ - ⟨rfl, h', -⟩
  exact .ok { h' with cur := rfl, stackTop := rfl, topLevel := rfl }

theorem openGroup_refines (h : Rel base freed s d) {cur : ℕ} (hcur : cur < d.doc.length) :
    Refines (Rel base freed) (Rel base freed) (openGroup calloc t (base + cur) s) (docOpen calloc t cur d) := by
  unfold openGroup docOpen
  rw [h.findChild hcur, lift_bind]
  split
  next =>
    refine (headerArray_refines h hcur).bind ?_
    rintro ⟨_, s'⟩ ⟨a, d'⟩ - ⟨rfl, h', ha⟩
    exact pushGroup_refines h' _ ha
  next =>
    cases hchild : d.doc.child cur t.key with
    | none => exact pushGroup_refines h _ hcur
    | some g =>
      obtain ⟨n, hn, htype, hline, -⟩ := h.node (ConfigDoc.lt_length_of_par (child_spec hchild).1)
      simp only [Option.map_some, hn, lift_bind, htype, hline, Option.some.injEq]
      split
      next => exact .ok { h with cur := rfl }
      next => exact .error h _

end Refinement

/-! ### Climbing -/

namespace ConfigDoc

variable {d : ConfigDoc} {e : ConfigEntry} {x y p m n : ℕ}

theorem typeOf_snoc_of_lt (hx : x < d.length) : typeOf (d ++ [e]) x = d.typeOf x := by
  rw [typeOf, getElem?_snoc_of_lt hx, typeOf]

theorem keyOf_snoc_of_lt (hx : x < d.length) : keyOf (d ++ [e]) x = d.keyOf x := by
  rw [keyOf, getElem?_snoc_of_lt hx, keyOf]

theorem typeOf_snoc (d : ConfigDoc) (e : ConfigEntry) : typeOf (d ++ [e]) d.length = some e.type := by
  simp [typeOf]

theorem keyOf_snoc (d : ConfigDoc) (e : ConfigEntry) : keyOf (d ++ [e]) d.length = e.key := by
  simp [keyOf]

theorem up_snoc_of_lt (hd : d.IsTree) (hx : x < d.length) : up (d ++ [e]) x = d.up x := by
  unfold up
  rw [par_snoc_of_lt hx]
  cases hp : d.par x with
  | none => rfl
  | some p =>
    have hlt := (hd.lt hp).trans hx
    simp only [Option.bind_some, typeOf_snoc_of_lt hlt, par_snoc_of_lt hlt]

theorem climb_snoc_of_lt (hd : d.IsTree) (hx : x < d.length) : climb (d ++ [e]) n x = d.climb n x := by
  induction n generalizing x with
  | zero => rfl
  | succ n ih =>
    rw [climb, climb, up_snoc_of_lt hd hx]
    cases hup : d.up x with
    | none => rfl
    | some y => exact ih ((hd.up_lt hup).trans hx)

theorem climb_add (d : ConfigDoc) (m n x : ℕ) : d.climb (m + n) x = (d.climb m x).bind (d.climb n) := by
  induction m generalizing x with
  | zero => rw [Nat.zero_add]; rfl
  | succ m ih =>
    rw [Nat.succ_add, climb, climb, Option.bind_assoc]
    congr 1
    funext y
    exact ih y

/-- What is left of a climb. -/
theorem climb_rest (h : (d.climb (m + n) x).isSome) :
    ∃ y, d.climb m x = some y ∧ (d.climb n y).isSome := by
  rw [climb_add] at h
  cases hy : d.climb m x with
  | none => rw [hy] at h; cases h
  | some y => exact ⟨y, rfl, by rwa [hy, Option.bind_some] at h⟩

theorem climb_of_le (h : (d.climb n x).isSome) (hmn : m ≤ n) : (d.climb m x).isSome := by
  obtain ⟨k, rfl⟩ := Nat.exists_eq_add_of_le hmn
  obtain ⟨y, hy, -⟩ := climb_rest h
  rw [hy]
  rfl

theorem IsTree.climb_le (hd : d.IsTree) (h : d.climb n x = some y) : y ≤ x := by
  induction n generalizing x with
  | zero => cases h; exact le_rfl
  | succ n ih =>
    obtain ⟨z, hz, h⟩ := Option.bind_eq_some_iff.mp h
    exact (ih h).trans (hd.up_lt hz).le

/-- Arrays are not in arrays. -/
def NoNestedArrays (d : ConfigDoc) : Prop :=
  ∀ j p, d.par j = some p → d.typeOf j = some .array → d.typeOf p ≠ some .array

theorem NoNestedArrays.up (h : d.NoNestedArrays) (hy : d.up x = some y) : d.typeOf y ≠ some .array := by
  obtain ⟨p, hp, hy⟩ := Option.bind_eq_some_iff.mp hy
  split at hy
  next harray => exact h p y hy harray
  next hother => cases hy; exact hother

theorem NoNestedArrays.climb (h : d.NoNestedArrays) (hx : d.typeOf x ≠ some .array)
    (hy : d.climb n x = some y) : d.typeOf y ≠ some .array := by
  induction n generalizing x with
  | zero => cases hy; exact hx
  | succ n ih =>
    obtain ⟨z, hz, hy⟩ := Option.bind_eq_some_iff.mp hy
    exact ih (h.up hz) hy

theorem NoNestedArrays.snoc (h : d.NoNestedArrays) (hd : d.IsTree) (he : e.parent = some p)
    (hp : p < d.length) (hnest : e.type = .array → d.typeOf p ≠ some .array) : NoNestedArrays (d ++ [e]) := by
  intro j q hq hj
  have hlt := lt_length_of_par hq
  rw [List.length_append, List.length_singleton] at hlt
  rcases Nat.lt_succ_iff_lt_or_eq.mp hlt with hlt | rfl
  · rw [par_snoc_of_lt hlt] at hq
    rw [typeOf_snoc_of_lt hlt] at hj
    rw [typeOf_snoc_of_lt ((hd.lt hq).trans hlt)]
    exact h j q hq hj
  · rw [par_snoc, he] at hq
    cases hq
    rw [typeOf_snoc, Option.some.injEq] at hj
    rw [typeOf_snoc_of_lt hp]
    exact hnest hj

end ConfigDoc

/-! ### The stack -/

/-- From the top of the stack the parser can climb to the root and over it, and it is never at an array. -/
structure DocState.Ok (s : DocState) : Prop where
  tree : s.doc.IsTree
  arrays : s.doc.NoNestedArrays
  cur_lt : s.cur < s.doc.length
  cur_type : s.doc.typeOf s.cur ≠ some .array
  top_lt : s.stackTop < s.doc.length
  top_type : s.doc.typeOf s.stackTop ≠ some .array
  level : -1 ≤ s.topLevel
  climbs : (s.doc.climb (s.topLevel + 1).toNat s.stackTop).isSome

/-- The group that a header of level `level` is looked up in. -/
structure DocState.Above (s : DocState) (level cur : ℕ) : Prop where
  lt : cur < s.doc.length
  type : s.doc.typeOf cur ≠ some .array
  climbs : (s.doc.climb level cur).isSome

/-- A root has no parent. -/
theorem ConfigDoc.par_init (j : ℕ) : init.par j = none := by
  cases j <;> rfl

theorem DocState.init_ok : DocState.init.Ok where
  tree := ⟨by decide, rfl, fun j hj hlt => absurd hlt (by simpa [init, ConfigDoc.init] using hj.ne')⟩
  arrays := by
    intro j p hp
    rw [init, ConfigDoc.par_init] at hp
    cases hp
  cur_lt := by decide
  cur_type := by decide
  top_lt := by decide
  top_type := by decide
  level := by decide
  climbs := by decide

section Stack

variable {calloc : ℕ → Bool} {s s' : DocState} {t : LexerOutput} {p c : ℕ} {type : NodeType}
  {key : List UInt8}

theorem docAdd_eq_ok {a : ℕ} (h : docAdd calloc type key t p s = .ok (a, s')) :
    a = s.doc.length ∧ s' = { s with doc := s.doc.add p type key t } := by
  unfold docAdd at h
  split at h
  next => cases h; exact ⟨rfl, rfl⟩
  next => cases h

theorem DocState.Ok.add (h : s.Ok) (type : NodeType) (hp : p < s.doc.length)
    (hnest : type = .array → s.doc.typeOf p ≠ some .array) (key : List UInt8) (t : LexerOutput) :
    Ok { s with doc := s.doc.add p type key t } where
  tree := h.tree.snoc rfl hp
  arrays := h.arrays.snoc h.tree rfl hp hnest
  cur_lt := h.cur_lt.trans_le (by simp [ConfigDoc.add])
  cur_type := by
    rw [ConfigDoc.add, ConfigDoc.typeOf_snoc_of_lt h.cur_lt]
    exact h.cur_type
  top_lt := h.top_lt.trans_le (by simp [ConfigDoc.add])
  top_type := by
    rw [ConfigDoc.add, ConfigDoc.typeOf_snoc_of_lt h.top_lt]
    exact h.top_type
  level := h.level
  climbs := by
    rw [ConfigDoc.add, ConfigDoc.climb_snoc_of_lt h.tree h.top_lt]
    exact h.climbs

/-- A new group that is one step below a node from which the parser can climb on. -/
theorem DocState.Ok.push (h : s.Ok) (hp : p < s.doc.length)
    (hc : (if s.doc.typeOf p = some .array then s.doc.par p else some p) = some c)
    (hclimb : (s.doc.climb t.level c).isSome) (hpush : docPush calloc key t p s = .ok s') : s'.Ok := by
  obtain ⟨⟨a, s₁⟩, hadd, hret⟩ := bind_eq_ok hpush
  obtain ⟨rfl, rfl⟩ := docAdd_eq_ok hadd
  cases hret
  have hcp : c ≤ p := by
    split at hc
    next => exact (h.tree.lt hc).le
    next => cases hc; exact le_rfl
  have hadd' := h.add .group hp (by simp) key t
  have hlen : (s.doc.add p .group key t).length = s.doc.length + 1 := by simp [ConfigDoc.add]
  have htype : (s.doc.add p .group key t).typeOf s.doc.length = some .group := ConfigDoc.typeOf_snoc _ _
  have hup : (s.doc.add p .group key t).up s.doc.length = some c := by
    have hpar : (s.doc.add p .group key t).par s.doc.length = some p := ConfigDoc.par_snoc _ _
    rw [ConfigDoc.up, hpar, Option.bind_some, ConfigDoc.add, ConfigDoc.typeOf_snoc_of_lt hp,
      ConfigDoc.par_snoc_of_lt hp]
    exact hc
  refine ⟨hadd'.tree, hadd'.arrays, ?_, ?_, ?_, ?_, ?_, ?_⟩
  · exact hlen ▸ Nat.lt_succ_self _
  · dsimp only
    rw [htype]
    decide
  · exact hlen ▸ Nat.lt_succ_self _
  · dsimp only
    rw [htype]
    decide
  · dsimp only
    omega
  · -- one step up is `c`, and from there the parser climbs as before
    have hsteps : ((t.level : ℤ) + 1).toNat = t.level + 1 := by omega
    dsimp only
    rw [hsteps, ConfigDoc.climb, hup, Option.bind_some, ConfigDoc.add,
      ConfigDoc.climb_snoc_of_lt h.tree (hcp.trans_lt hp)]
    exact hclimb

theorem DocState.Ok.openGroup (h : s.Ok) (hc : s.Above t.level c) (hopen : docOpen calloc t c s = .ok s') :
    s'.Ok := by
  unfold docOpen at hopen
  split at hopen
  next =>
    obtain ⟨⟨a, s₁⟩, harray, hpush⟩ := bind_eq_ok hopen
    unfold docHeaderArray at harray
    split at harray
    next =>
      -- a new array below the group, and a new group in it
      obtain ⟨rfl, rfl⟩ := docAdd_eq_ok harray
      have hadd := h.add .array hc.lt (fun _ => hc.type) t.key t
      have htype : (s.doc.add c .array t.key t).typeOf s.doc.length = some .array :=
        ConfigDoc.typeOf_snoc _ _
      have hpar : (s.doc.add c .array t.key t).par s.doc.length = some c := ConfigDoc.par_snoc _ _
      refine hadd.push (c := c) (by simp [ConfigDoc.add]) ?_ ?_ hpush
      · rw [htype, if_pos rfl, hpar]
      · rw [ConfigDoc.add, ConfigDoc.climb_snoc_of_lt h.tree hc.lt]
        exact hc.climbs
    next hchild =>
      cases harray
      obtain ⟨hpar, -⟩ := child_spec hchild
      have hlt := ConfigDoc.lt_length_of_par hpar
      by_cases htype : s.doc.typeOf a = some .array
      · exact h.push hlt (by rw [if_pos htype, hpar]) hc.climbs hpush
      · -- below a node that is no array, one step more
        refine h.push hlt (if_neg htype) ?_ hpush
        have hup : s.doc.up a = some c := by
          rw [ConfigDoc.up, hpar, Option.bind_some, if_neg hc.type]
        cases hlevel : t.level with
        | zero => rfl
        | succ k =>
          rw [ConfigDoc.climb, hup, Option.bind_some]
          exact ConfigDoc.climb_of_le hc.climbs (by omega)
  next =>
    split at hopen
    next => exact h.push hc.lt (if_neg hc.type) hc.climbs hopen
    next =>
      split at hopen
      next => cases hopen; exact { h with cur_lt := hc.lt, cur_type := hc.type }
      next => cases hopen

/-- The header's level is at most one above the stack, so the parser can climb to it. -/
theorem DocState.Ok.climb (h : s.Ok) (hlevel : ¬ t.level > s.topLevel + 1) :
    ∃ x, s.doc.climb (s.topLevel - t.level).toNat s.stackTop = some x ∧ x < s.doc.length ∧
      s.doc.typeOf x ≠ some .array ∧
      (s.doc.climb (if t.level ≤ s.topLevel then t.level + 1 else t.level) x).isSome := by
  have hsteps : (s.topLevel + 1).toNat = (s.topLevel - t.level).toNat +
      if t.level ≤ s.topLevel then t.level + 1 else t.level := by
    have hl := h.level
    split <;> omega
  have hclimbs := h.climbs
  rw [hsteps] at hclimbs
  obtain ⟨x, hx, hrest⟩ := ConfigDoc.climb_rest hclimbs
  exact ⟨x, hx, (h.tree.climb_le hx).trans_lt h.top_lt, h.arrays.climb h.top_type hx, hrest⟩

/-- The group above a group on the stack. -/
theorem DocState.Ok.above (h : s.Ok) {x : ℕ} (hx : x < s.doc.length)
    (hclimb : (s.doc.climb (t.level + 1) x).isSome) :
    ∃ c, s.doc.up x = some c ∧ s.Above t.level c := by
  rw [Nat.add_comm] at hclimb
  obtain ⟨c, hc, hrest⟩ := ConfigDoc.climb_rest hclimb
  have hup : s.doc.up x = some c := by
    rw [ConfigDoc.climb] at hc
    obtain ⟨y, hy, hc⟩ := Option.bind_eq_some_iff.mp hc
    cases hc
    exact hy
  exact ⟨c, hup, (h.tree.up_lt hup).trans hx, h.arrays.up hup, hrest⟩

theorem DocState.Ok.group (h : s.Ok) (hgroup : docGroup calloc t s = .ok s') : s'.Ok := by
  unfold docGroup at hgroup
  split at hgroup
  next => cases hgroup
  next hlevel =>
    obtain ⟨x, hx, hlt, htype, hclimb⟩ := h.climb hlevel
    rw [hx, Option.getD_some] at hgroup
    dsimp only at hgroup
    split at hgroup
    next hon =>
      rw [if_pos hon] at hclimb
      split at hgroup
      next =>
        obtain ⟨c, hup, habove⟩ := h.above hlt hclimb
        rw [hup, Option.getD_some] at hgroup
        exact h.openGroup habove hgroup
      next =>
        cases hgroup
        exact { h with cur_lt := hlt, cur_type := htype }
    next hon =>
      rw [if_neg hon] at hclimb
      exact h.openGroup ⟨hlt, htype, hclimb⟩ hgroup

theorem DocState.Ok.item (h : s.Ok) (hitem : docItem calloc t s = .ok s') : s'.Ok := by
  unfold docItem at hitem
  split at hitem
  next =>
    obtain ⟨⟨a, s₁⟩, harray, hitem⟩ := bind_eq_ok hitem
    obtain ⟨⟨b, s₂⟩, hadd, hret⟩ := bind_eq_ok hitem
    obtain ⟨rfl, rfl⟩ := docAdd_eq_ok hadd
    cases hret
    unfold docItemArray at harray
    split at harray
    next =>
      obtain ⟨rfl, rfl⟩ := docAdd_eq_ok harray
      exact (h.add .array h.cur_lt (fun _ => h.cur_type) t.key t).add .item (by simp [ConfigDoc.add])
        (by simp) [] t
    next a' hchild =>
      split at harray
      next =>
        cases harray
        exact h.add .item (ConfigDoc.lt_length_of_par (child_spec hchild).1) (by simp) [] t
      next => cases harray
  next =>
    split at hitem
    next => cases hitem
    next =>
      obtain ⟨⟨b, s₁⟩, hadd, hret⟩ := bind_eq_ok hitem
      obtain ⟨rfl, rfl⟩ := docAdd_eq_ok hadd
      cases hret
      exact h.add .item h.cur_lt (by simp) t.key t

/-- **Each token keeps the stack.** -/
theorem DocState.Ok.token (h : s.Ok) (htoken : docToken calloc t s = .ok s') : s'.Ok := by
  unfold docToken at htoken
  split at htoken
  next => exact h.item htoken
  next => exact h.group htoken

end Stack

/-! ### The loop -/

section Loop

variable {base : ℕ} {freed : List ℕ} {calloc : ℕ → Bool} {s : ParseState} {d : DocState}

theorem parseGroup_refines (h : Rel base freed s d) (hok : d.Ok) (t : LexerOutput) :
    Refines (Rel base freed) (Rel base freed) (parseGroup calloc t s) (docGroup calloc t d) := by
  unfold parseGroup docGroup
  rw [h.topLevel]
  split
  next => exact .error h _
  next hlevel =>
    obtain ⟨x, hx, hlt, htype, hclimb⟩ := hok.climb hlevel
    have hheap := h.laid.climb h.tree (d.topLevel - t.level).toNat hok.top_lt
    rw [hx, Option.map_some] at hheap
    rw [h.stackTop, hheap, lift_bind, hx]
    dsimp only [Option.getD_some]
    split
    next hon =>
      rw [if_pos hon] at hclimb
      obtain ⟨n, hn, -, -, hkey⟩ := h.node hlt
      rw [hn, lift_bind, hkey]
      split
      next =>
        obtain ⟨c, hup, habove⟩ := hok.above hlt hclimb
        have hheapUp := h.laid.up h.tree hlt
        rw [hup, Option.map_some] at hheapUp
        rw [hheapUp, lift_bind, hup, Option.getD_some]
        exact openGroup_refines h habove.lt
      next =>
        exact .ok ⟨h.laid, h.tree, h.next, h.freed_eq, h.calls, rfl, rfl, rfl⟩
    next => exact openGroup_refines h hlt

theorem parseToken_refines (h : Rel base freed s d) (hok : d.Ok) (t : LexerOutput) :
    Refines (Rel base freed) (Rel base freed) (parseToken calloc t s) (docToken calloc t d) := by
  unfold parseToken docToken
  cases t.type with
  | item => exact parseItem_refines h hok.cur_lt
  | group => exact parseGroup_refines h hok t

theorem docLoop_append (rs rs' : List LexerResult) (d : DocState) :
    docLoop calloc (rs ++ rs') d = docLoop calloc rs d >>= docLoop calloc rs' := by
  induction rs generalizing d with
  | nil => rfl
  | cons r rs ih =>
    cases r with
    | syntaxError lineno => rfl
    | token t =>
      have hrest : docLoop calloc (rs ++ rs') = fun d => docLoop calloc rs d >>= docLoop calloc rs' := funext ih
      rw [List.cons_append, docLoop, hrest, docLoop, bind_assoc]

/-- **The parser on a heap is the parser on the tree in it**, for all that the lexer may return. -/
theorem parseLoop_refines (rs : List LexerResult) (h : Rel base freed s d) (hok : d.Ok) :
    Refines (Rel base freed) (Rel base freed) (parseLoop calloc rs s) (docLoop calloc rs d) := by
  induction rs generalizing s d with
  | nil => exact .ok h
  | cons r rs ih =>
    cases r with
    | syntaxError lineno => exact .error h _
    | token t =>
      refine (parseToken_refines h hok t).bind ?_
      intro s' d' hd h'
      exact ih h' (hok.token hd)

theorem Rel.init (h : ConfigHeap) : Rel h.next h.freed (ParseState.init h) DocState.init where
  laid := by
    intro i e he
    cases i with
    | zero =>
      cases he
      exact Function.update_self ..
    | succ i => cases he
  tree := DocState.init_ok.tree
  next := rfl
  freed_eq := rfl
  calls := rfl
  cur := rfl
  stackTop := rfl
  topLevel := rfl

/-- The loop on a new root. -/
theorem parseLoop_init (calloc : ℕ → Bool) (rs : List LexerResult) (h : ConfigHeap) :
    Refines (Rel h.next h.freed) (Rel h.next h.freed) (parseLoop calloc rs (.init h)) (docLoop calloc rs .init) :=
  parseLoop_refines rs (Rel.init h) DocState.init_ok

/-- A tree that `config_parse_file` returns is what the loop has built. -/
theorem configParseFile_ok {c : ParseCall} {h h' : ConfigHeap} {root : ℕ}
    (hparse : configParseFile c h = some (h', .ok root)) :
    root = h.next ∧ ∃ s d, (parseLoop c.calloc c.results (.init h)).run = some (.ok s) ∧ s.heap = h' ∧
      docLoop c.calloc c.results .init = .ok d ∧ Rel h.next h.freed s d := by
  unfold configParseFile at hparse
  split at hparse
  next =>
    dsimp only at hparse
    split at hparse
    next =>
      obtain ⟨_, _, heq⟩ := Option.map_eq_some_iff.mp hparse
      cases heq
    next =>
      obtain ⟨_, _, heq⟩ := Option.map_eq_some_iff.mp hparse
      cases heq
    next =>
      obtain ⟨r, hrun, hr⟩ := Option.bind_eq_some_iff.mp hparse
      have hrefines := parseLoop_init c.calloc c.results h
      rcases r with ⟨e, s⟩ | s
      · obtain ⟨_, _, heq⟩ := Option.map_eq_some_iff.mp hr
        cases heq
      · cases hr
        refine ⟨rfl, s, ?_⟩
        cases hd : docLoop c.calloc c.results .init with
        | ok d =>
          rw [hd] at hrefines
          obtain ⟨s', hrun', hrel⟩ := hrefines
          cases hrun.symm.trans hrun'
          exact ⟨d, hrun, rfl, rfl, hrel⟩
        | error p =>
          rw [hd] at hrefines
          obtain ⟨s', hrun', -⟩ := hrefines
          cases hrun.symm.trans hrun'
  next => cases hparse

end Loop

end Spigeon
