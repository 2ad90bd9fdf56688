import Spigeon.Lib.Decimal
import Spigeon.Spec.ConfigAccess
import Spigeon.Proof.ConfigLexer
import Spigeon.Proof.ConfigRef

/-!
# Looking up nodes

* `Laid.lookup_eq`: `config_lookup` follows the pieces of its path in the tree that the heap holds: a key
  in a group, a number in an array, and nothing below an item. It never reads a node that is not there.
* `Laid.lookup_path`: in a tree whose keys tell siblings apart, the path of a node leads to it.
* `lookup_own_path`: both for the tree of a file that the scanner and the parser have read. There a key is
  never empty and has no `/` in it, and the index of an element is a number that `atoi` reads back.
* `lookup_own_value`: what `config_lookup_string` and `config_lookup_bool` return for the path of a node.
-/

namespace Spigeon

open CStr Decimal Printf

/-! ### The walk -/

/-- A numeral is read back by `atoi` if it is in range. -/
theorem atoi_numeral {n : ℕ} (h : n < 2 ^ 31) : atoi (numeral .decimal n) = n := by
  have hdigits : ∀ b ∈ numeral .decimal n, isDigit b = true := fun b hb => isDigit_of_mem_numeral hb
  have hval := digitsVal_numeral n
  unfold atoi strtoll
  cases hnum : numeral .decimal n with
  | nil => exact absurd hnum (numeral_ne_nil n)
  | cons b t =>
    rw [hnum] at hdigits hval
    have hb := isDigit_iff.1 (hdigits b List.mem_cons_self)
    have hspace : ¬ isSpace b = true := by
      unfold isSpace
      simp only [Bool.or_eq_true, decide_eq_true_iff, Bool.and_eq_true, not_or, not_and]
      refine ⟨fun h32 => ?_, fun _ h13 => ?_⟩
      · rw [h32] at hb; exact absurd hb.1 (by decide)
      · have := UInt8.le_iff_toNat_le.1 h13
        have h13' : (13 : UInt8).toNat = 13 := rfl
        omega
    have h45 : b ≠ 45 := by rintro rfl; exact absurd hb.1 (by decide)
    have h43 : b ≠ 43 := by rintro rfl; exact absurd hb.1 (by decide)
    have hall : (b :: t).takeWhile isDigit = b :: t := List.takeWhile_eq_self_iff.2 hdigits
    rw [List.dropWhile_cons_of_neg hspace]
    dsimp only
    rw [if_neg h45, if_neg h43, hall, hval]
    have hclamp : clamp64 (n : ℤ) = n := by unfold clamp64; omega
    rw [hclamp, CInt.toInt_nat h]

namespace ConfigDoc

variable {d : ConfigDoc} {base : ℕ} {h : ConfigHeap} {p : ℕ}

/-- The child that a piece of a path names. -/
def named (d : ConfigDoc) (p : ℕ) (key : List UInt8) : Option ℕ :=
  match d.typeOf p with
  | some .array => (d.kids p)[(atoi key).toNat]?
  | some .group => d.child p key
  | _ => none

/-- The node that a path leads to. -/
def follow (d : ConfigDoc) : ℕ → List (List UInt8) → Option ℕ
  | p, [] => some p
  | p, key :: keys => (d.named p key).bind fun q => d.follow q keys

theorem follow_snoc (d : ConfigDoc) (p : ℕ) (keys : List (List UInt8)) (key : List UInt8) :
    d.follow p (keys ++ [key]) = (d.follow p keys).bind fun q => d.named q key := by
  induction keys generalizing p with
  | nil =>
    show (d.named p key).bind some = d.named p key
    cases d.named p key with
    | none => rfl
    | some q => rfl
  | cons k keys ih =>
    rw [List.cons_append, follow, follow, Option.bind_assoc]
    congr 1
    funext q
    exact ih q

theorem named_lt {key : List UInt8} {q : ℕ} (hq : d.named p key = some q) : q < d.length := by
  unfold named at hq
  split at hq
  · exact lt_length_of_par (mem_kids.mp (List.mem_of_getElem? hq))
  · exact lt_length_of_par (child_spec hq).1
  · cases hq

theorem Laid.nthSibling (hlaid : d.Laid base h) {pre post : List ℕ} (hkids : d.kids p = pre ++ post) (index : ℕ) :
    h.nthSibling index (post.head?.map (base + ·)) = some (post[index]?.map (base + ·)) := by
  induction index generalizing pre post with
  | zero => rw [ConfigHeap.nthSibling, List.head?_eq_getElem?]
  | succ index ih =>
    cases post with
    | nil => rfl
    | cons j post =>
      have hj : d.par j = some p := by
        refine mem_kids.mp ?_
        rw [hkids]
        exact List.mem_append_right _ List.mem_cons_self
      obtain ⟨ej, hej, hnode⟩ := hlaid.node (lt_length_of_par hj)
      have hafter : d.after j = post := Forest.after_of_split hj hkids
      have hsplit : d.kids p = (pre ++ [j]) ++ post := by rw [hkids, List.append_assoc, List.singleton_append]
      rw [List.head?_cons, Option.map_some, ConfigHeap.nthSibling, hnode]
      simp only [Option.bind_eq_bind, Option.bind_some, nodeAt, hafter]
      exact ih hsplit

theorem Laid.lookupStep (hlaid : d.Laid base h) (hfuel : d.length ≤ h.next) (hp : p < d.length)
    (key : List UInt8) : h.lookupStep (base + p) key = some ((d.named p key).map (base + ·)) := by
  obtain ⟨ep, hep, hnode⟩ := hlaid.node hp
  have htype : d.typeOf p = some ep.type := by rw [typeOf, hep, Option.map_some]
  rw [ConfigHeap.lookupStep, hnode, named, htype]
  simp only [Option.bind_eq_bind, Option.bind_some, nodeAt]
  cases ep.type with
  | group => exact hlaid.findChild hp hfuel key
  | array => exact hlaid.nthSibling (List.nil_append _).symm _
  | item => rfl

/-- **The loop of `config_lookup` follows the path in the tree.** -/
theorem Laid.lookupLoop (hlaid : d.Laid base h) (hfuel : d.length ≤ h.next) (hp : p < d.length)
    (keys : List (List UInt8)) :
    h.lookupLoop (some (base + p)) keys = some ((d.follow p keys).map (base + ·)) := by
  induction keys generalizing p with
  | nil => rfl
  | cons key keys ih =>
    rw [ConfigHeap.lookupLoop, hlaid.lookupStep hfuel hp, follow]
    simp only [Option.bind_eq_bind, Option.bind_some]
    cases hq : d.named p key with
    | none => cases keys <;> rfl
    | some q => exact ih (named_lt hq)

/-! ### The path of a node -/

/-- The last piece of the path of a node: its index in an array, or its key. -/
def segment (d : ConfigDoc) (i : ℕ) : List UInt8 :=
  if (d.par i).bind d.typeOf = some .array then numeral .decimal (d.before i).length else (d.keyOf i).getD []

/-- The pieces of the path of a node. Parents have smaller numbers, so the number of the node is enough
for `fuel`. -/
def segments (d : ConfigDoc) : ℕ → ℕ → List (List UInt8)
  | 0, _ => []
  | fuel + 1, i =>
    match d.par i with
    | none => []
    | some p => d.segments fuel p ++ [d.segment i]

/-- The path of a node. -/
def path (d : ConfigDoc) (i : ℕ) : List UInt8 := Strtok.join lookupDelim (d.segments i i)

/-- In groups every node has a name that the scanner can return. -/
def Named (d : ConfigDoc) : Prop :=
  ∀ j p, d.par j = some p → d.typeOf p ≠ some .array →
    ∃ key, d.keyOf j = some key ∧ key ≠ [] ∧ ∀ b ∈ key, isKeyByte b = true

theorem getElem?_before {j : ℕ} (hj : d.par j = some p) : (d.kids p)[(d.before j).length]? = some j := by
  obtain ⟨pre, post, hkids⟩ := List.append_of_mem (mem_kids.mpr hj)
  have hbefore : d.before j = pre := by
    have hsort := Forest.kids_sorted d.par d.length p
    rw [show Forest.kids d.par d.length p = d.kids p from rfl, hkids, List.pairwise_append,
      List.pairwise_cons] at hsort
    obtain ⟨-, ⟨hpost, -⟩, hpre⟩ := hsort
    rw [before, Forest.before, hj, Option.elim_some, show Forest.kids d.par d.length p = d.kids p from rfl,
      hkids, List.filter_append, List.filter_cons_of_neg (by simp)]
    have hall : pre.filter (· < j) = pre :=
      List.filter_eq_self.mpr fun i hi => by simpa using hpre i hi j List.mem_cons_self
    have hnone : post.filter (· < j) = [] :=
      List.filter_eq_nil_iff.mpr fun i hi => by simpa using (hpost i hi).le
    rw [hall, hnone, List.append_nil]
  rw [hbefore, hkids, List.getElem?_append_right le_rfl, Nat.sub_self]
  rfl

theorem named_segment (hd : d.Good) (hn : d.Named) (hsmall : d.length ≤ 2 ^ 31) {j : ℕ} (hj : d.par j = some p) :
    d.named p (d.segment j) = some j := by
  unfold segment named
  rw [hj, Option.bind_some]
  rcases hd.type_parent hj with hgroup | harray
  · rw [hgroup, if_neg (by decide)]
    obtain ⟨key, hkey, hne, -⟩ := hn j p hj (by rw [hgroup]; decide)
    rw [hkey, Option.getD_some]
    exact hd.child_eq hgroup hj (by rw [hkey]; rfl) hne
  · rw [harray, if_pos rfl]
    dsimp only
    have hget := getElem?_before hj
    have hlt : (d.before j).length < 2 ^ 31 := by
      have := (List.getElem?_eq_some_iff.1 hget).1
      have := d.kids_length_le p
      omega
    rw [atoi_numeral hlt, Int.toNat_natCast]
    exact hget

/-- **The path of a node leads to it.** -/
theorem follow_segments (hd : d.Good) (hn : d.Named) (hsmall : d.length ≤ 2 ^ 31) (fuel : ℕ) :
    ∀ i, i ≤ fuel → i < d.length → d.follow 0 (d.segments fuel i) = some i := by
  induction fuel with
  | zero =>
    intro i hi _
    rw [Nat.le_zero.1 hi]
    rfl
  | succ fuel ih =>
    intro i hi hlt
    rw [segments]
    cases hp : d.par i with
    | none =>
      -- only the root has no parent
      rcases Nat.eq_zero_or_pos i with rfl | hpos
      · rfl
      · obtain ⟨q, -, hq⟩ := hd.tree.parent i hpos hlt
        rw [hp] at hq
        cases hq
    | some p =>
      have hpi := hd.tree.lt hp
      rw [follow_snoc, ih p (by omega) (hpi.trans hlt), Option.bind_some]
      exact named_segment hd hn hsmall hp

theorem delim_not_mem_key {key : List UInt8} (h : ∀ b ∈ key, isKeyByte b = true) : lookupDelim ∉ key :=
  fun hmem => absurd (h lookupDelim hmem) (by decide)

theorem segment_piece (hn : d.Named) {j : ℕ} (hj : d.par j = some p) :
    d.segment j ≠ [] ∧ lookupDelim ∉ d.segment j := by
  unfold segment
  rw [hj, Option.bind_some]
  split
  next => exact ⟨numeral_ne_nil _, fun hmem => absurd (isDigit_of_mem_numeral hmem) (by decide)⟩
  next harray =>
    obtain ⟨key, hkey, hne, hbytes⟩ := hn j p hj harray
    rw [hkey]
    exact ⟨hne, delim_not_mem_key hbytes⟩

theorem strtok_path (hn : d.Named) (fuel i : ℕ) :
    Strtok.strtok lookupDelim (Strtok.join lookupDelim (d.segments fuel i)) = d.segments fuel i := by
  apply Strtok.strtok_join
  induction fuel generalizing i with
  | zero => intro t ht; simp [segments] at ht
  | succ fuel ih =>
    intro t ht
    rw [segments] at ht
    cases hp : d.par i with
    | none => rw [hp] at ht; simp at ht
    | some p =>
      rw [hp] at ht
      rcases List.mem_append.1 ht with ht | ht
      · exact ih p t ht
      · rw [List.mem_singleton.1 ht]
        exact segment_piece hn hp

/-- **`config_lookup` follows its path in the tree.** -/
theorem Laid.lookup_eq (hlaid : d.Laid base h) (hfuel : d.length ≤ h.next) (hpos : 0 < d.length)
    (path : List UInt8) :
    configLookup h ⟨some base, none⟩ path =
      some ((d.follow 0 (Strtok.strtok lookupDelim path)).map (base + ·)) :=
  hlaid.lookupLoop hfuel hpos _

/-- **`config_lookup` finds a node under its path.** -/
theorem Laid.lookup_path (hlaid : d.Laid base h) (hfuel : d.length ≤ h.next) (hd : d.Good) (hn : d.Named)
    (hsmall : d.length ≤ 2 ^ 31) {i : ℕ} (hi : i < d.length) :
    configLookup h ⟨some base, none⟩ (d.path i) = some (some (base + i)) := by
  have hfollow := follow_segments hd hn hsmall i i le_rfl hi
  rw [hlaid.lookup_eq hfuel hd.tree.pos, path, strtok_path hn, hfollow, Option.map_some]

/-- A group or an array has no value: the string is NULL, and reading it as a boolean follows NULL. -/
theorem Laid.lookup_value (hlaid : d.Laid base h) {path : List UInt8} {i : ℕ} {e : ConfigEntry}
    (he : d[i]? = some e) (hlook : configLookup h ⟨some base, none⟩ path = some (some (base + i))) :
    configLookupString h ⟨some base, none⟩ path = some (0, e.value) ∧
      configLookupBool h ⟨some base, none⟩ path = e.value.map fun v => (0, some (valueBool (cStr v))) := by
  have hnode := hlaid i e he
  unfold configLookupString configLookupBool
  rw [hlook]
  simp only [Option.bind_eq_bind, Option.bind_some, hnode, nodeAt, true_and]
  cases e.value <;> rfl

end ConfigDoc

/-! ### Trees of files -/

/-- The tokens name what they add. -/
def TokensNamed (ts : List LexerOutput) : Prop := ∀ t ∈ ts, ∀ b ∈ t.key, isKeyByte b = true

theorem ConfigDoc.Named.add {d : ConfigDoc} {p : ℕ} (h : d.Named) (htree : d.IsTree) (hp : p < d.length)
    (type : NodeType) {key : List UInt8} (t : LexerOutput)
    (hkey : d.typeOf p ≠ some .array → key ≠ [] ∧ ∀ b ∈ key, isKeyByte b = true) :
    ConfigDoc.Named (d.add p type key t) := by
  intro j q hj hq
  have hlt := ConfigDoc.lt_length_of_par hj
  unfold ConfigDoc.add at hj hq hlt ⊢
  rw [List.length_append, List.length_singleton] at hlt
  rcases Nat.lt_succ_iff_lt_or_eq.mp hlt with hlt | rfl
  · rw [ConfigDoc.par_snoc_of_lt hlt] at hj
    have hqlt := (htree.lt hj).trans hlt
    rw [ConfigDoc.typeOf_snoc_of_lt hqlt] at hq
    rw [ConfigDoc.keyOf_snoc_of_lt hlt]
    exact h j q hj hq
  · rw [ConfigDoc.par_snoc] at hj
    cases hj
    rw [ConfigDoc.typeOf_snoc_of_lt hp] at hq
    rw [ConfigDoc.keyOf_snoc]
    exact ⟨key, rfl, hkey hq⟩

/-- A tree whose nodes have names, and the groups in it that the next token may be added to. -/
structure RefState.NamedOK (r : RefState) : Prop where
  tree : r.doc.IsTree
  named : r.doc.Named
  current : r.current < r.doc.length
  selected : ∀ level, r.selected level < r.doc.length

theorem RefState.NamedOK.above_lt {r : RefState} (h : r.NamedOK) (level : ℕ) : r.above level < r.doc.length := by
  cases level with
  | zero => exact h.tree.pos
  | succ level => exact h.selected level

theorem namedOK_init : RefState.init.NamedOK := by
  refine ⟨DocState.init_ok.tree, ?_, Nat.one_pos, fun _ => Nat.one_pos⟩
  intro j p hj
  rw [show RefState.init.doc = ConfigDoc.init from rfl, ConfigDoc.par_init] at hj
  cases hj

section Tokens

variable {t : LexerOutput} (hkey : ∀ b ∈ t.key, isKeyByte b = true)

include hkey

theorem named_refArray {d d' : ConfigDoc} {p a : ℕ} (htree : d.IsTree) (hn : d.Named) (hp : p < d.length)
    (h : refArray d p t = some (a, d')) :
    d'.IsTree ∧ d'.Named ∧ a < d'.length ∧ d'.typeOf a = some .array ∧ d.length ≤ d'.length ∧
      d'.length ≤ d.length + 1 := by
  unfold refArray at h
  split at h
  next =>
    cases h
    have hlen : (d.add p .array t.key t).length = d.length + 1 := by simp [ConfigDoc.add]
    exact ⟨htree.snoc rfl hp, hn.add htree hp _ _ fun _ => ⟨t.key_ne, hkey⟩, by omega, ConfigDoc.typeOf_add ..,
      by omega, by omega⟩
  next a' hchild =>
    split at h
    next htype =>
      cases h
      exact ⟨htree, hn, ConfigDoc.lt_length_of_type htype, htype, le_rfl, Nat.le_succ _⟩
    next => cases h

omit hkey in
/-- One more node below a group or an array keeps the names. -/
theorem RefState.NamedOK.extend {r : RefState} (h : r.NamedOK) {d : ConfigDoc} (htree : d.IsTree) (hn : d.Named)
    (hle : r.doc.length ≤ d.length) {p : ℕ} (hp : p < d.length) (type : NodeType) (key : List UInt8)
    (hk : d.typeOf p ≠ some .array → key ≠ [] ∧ ∀ b ∈ key, isKeyByte b = true) :
    RefState.NamedOK { r with doc := d.add p type key t } := by
  have hlen : (d.add p type key t).length = d.length + 1 := by simp [ConfigDoc.add]
  exact ⟨htree.snoc rfl hp, hn.add htree hp type t hk, by have := h.current; dsimp only; omega,
    fun l => by have := h.selected l; dsimp only; omega⟩

omit hkey in
theorem RefState.NamedOK.select {r : RefState} (h : r.NamedOK) {g : ℕ} (hg : g < r.doc.length) (level : ℕ) :
    (r.select level g).NamedOK := by
  refine ⟨h.tree, h.named, hg, fun l => ?_⟩
  show Function.update r.selected level g l < r.doc.length
  by_cases hl : l = level
  · rw [hl, Function.update_self]
    exact hg
  · rw [Function.update_of_ne hl]
    exact h.selected l

/-- **Every token keeps the names**, and adds at most two nodes. -/
theorem RefState.NamedOK.token {r r' : RefState} (h : r.NamedOK) (hst : refToken r t = some r') :
    r'.NamedOK ∧ r'.doc.length ≤ r.doc.length + 2 := by
  have hname : t.key ≠ [] ∧ ∀ b ∈ t.key, isKeyByte b = true := ⟨t.key_ne, hkey⟩
  unfold refToken at hst
  split at hst
  next =>
    unfold refItem at hst
    split at hst
    next =>
      -- the node in an array has no name, and needs none
      obtain ⟨⟨a, d⟩, harray, rfl⟩ := Option.map_eq_some_iff.1 hst
      obtain ⟨htree, hn, hlt, htype, hle, hle'⟩ := named_refArray hkey h.tree h.named h.current harray
      exact ⟨h.extend htree hn hle hlt .item [] fun hne => absurd htype hne, by simp [ConfigDoc.add]; omega⟩
    next =>
      split at hst
      next =>
        cases hst
        exact ⟨h.extend h.tree h.named le_rfl h.current .item t.key fun _ => hname, by simp [ConfigDoc.add]⟩
      next => cases hst
  next =>
    unfold refGroup at hst
    dsimp only at hst
    split at hst
    next =>
      obtain ⟨⟨a, d⟩, harray, rfl⟩ := Option.map_eq_some_iff.1 hst
      obtain ⟨htree, hn, hlt, htype, hle, hle'⟩ := named_refArray hkey h.tree h.named (h.above_lt _) harray
      have hext := h.extend (t := t) htree hn hle hlt .group [] fun hne => absurd htype hne
      exact ⟨hext.select (by simp [ConfigDoc.add]) _, by simp [RefState.select, ConfigDoc.add]; omega⟩
    next =>
      split at hst
      next =>
        cases hst
        have hext := h.extend (t := t) h.tree h.named le_rfl (h.above_lt t.level) .group t.key fun _ => hname
        exact ⟨hext.select (by simp [ConfigDoc.add]) _, by simp [RefState.select, ConfigDoc.add]⟩
      next g hchild =>
        split at hst
        next htype =>
          cases hst
          -- the group exists already: it is opened again and nothing is added
          exact ⟨h.select (ConfigDoc.lt_length_of_type htype) _, by simp [RefState.select]⟩
        next => cases hst

end Tokens

theorem namedOK_run {ts : List LexerOutput} (hts : TokensNamed ts) {r r' : RefState} (h : r.NamedOK)
    (hrun : Lts.run refToken r ts = some r') : r'.NamedOK ∧ r'.doc.length ≤ r.doc.length + 2 * ts.length := by
  induction ts generalizing r with
  | nil => cases hrun; exact ⟨h, Nat.le_add_right _ _⟩
  | cons t ts ih =>
    obtain ⟨r₁, hst, hrun⟩ := Lts.run_cons.1 hrun
    obtain ⟨hok, hle⟩ := h.token (hts t List.mem_cons_self) hst
    obtain ⟨hok', hle'⟩ := ih (fun u hu => hts u (List.mem_cons_of_mem _ hu)) hok hrun
    exact ⟨hok', by rw [List.length_cons]; omega⟩

/-- The tree of a file that was read: what it says to the lookup. -/
theorem parsed_doc {text : List UInt8} {ts : List LexerOutput} (hlex : lexFile text = ts.map .token)
    (hsize : text.length < 2 ^ 30) {h h' : ConfigHeap} {root : ℕ}
    (hparse : configParseText text h = some (h', .ok root)) (hsel : Lts.Along refToken Selectable .init ts) :
    ∃ r, Lts.run refToken .init ts = some r ∧ r.doc.Laid root h' ∧ r.doc.length ≤ h'.next ∧ r.doc.Good ∧
      r.doc.Named ∧ r.doc.length ≤ 2 ^ 31 := by
  obtain ⟨rfl, s, d, -, rfl, hd, hrel⟩ := configParseFile_ok hparse
  dsimp only at hd
  rw [hlex] at hd
  obtain ⟨sel, hrun, hsim⟩ := Sim.init.run hd hsel
  have hts : TokensNamed ts := by
    intro t ht
    have hmem : LexerResult.token t ∈ lexFile text := by rw [hlex]; exact List.mem_map_of_mem ht
    exact keys_of_lexFile hmem
  obtain ⟨hnamed, hlen⟩ := namedOK_run hts namedOK_init hrun
  have hcount : ts.length ≤ text.length := by
    have := lexFile_length_le text
    rwa [hlex, List.length_map] at this
  have hfuel : d.doc.length ≤ s.heap.next := by rw [hrel.next]; omega
  have hsmall : (d.ref sel).doc.length ≤ 2 ^ 31 := by
    have hinit : RefState.init.doc.length = 1 := rfl
    omega
  exact ⟨d.ref sel, hrun, hrel.laid, hfuel, hsim.good, hnamed.named, hsmall⟩

/-- **Every node of a file is found under its own path**, and every lookup follows its path in the tree of the
file. The path of a node has the keys of the groups and items on the way to it, and the index of each element
of an array. -/
theorem lookup_own_path {text : List UInt8} {ts : List LexerOutput} (hlex : lexFile text = ts.map .token)
    (hsize : text.length < 2 ^ 30) {h h' : ConfigHeap} {root : ℕ}
    (hparse : configParseText text h = some (h', .ok root)) (hsel : Lts.Along refToken Selectable .init ts) :
    ∃ r, Lts.run refToken .init ts = some r ∧ r.doc.Laid root h' ∧
      (∀ path, configLookup h' ⟨some root, none⟩ path =
        some ((r.doc.follow 0 (Strtok.strtok lookupDelim path)).map (root + ·))) ∧
      ∀ i < r.doc.length, configLookup h' ⟨some root, none⟩ (r.doc.path i) = some (some (root + i)) := by
  obtain ⟨r, hrun, hlaid, hfuel, hgood, hnamed, hsmall⟩ := parsed_doc hlex hsize hparse hsel
  refine ⟨r, hrun, hlaid, ?_, ?_⟩
  · intro path
    exact hlaid.lookup_eq hfuel hgood.tree.pos path
  · intro i hi
    exact hlaid.lookup_path hfuel hgood hnamed hsmall hi

/-- A group with an array of two items, and a group in it. -/
def arrayText : List UInt8 := bytes "[a]\n@x: 1\n@x: 2\n[.b]\ny: 3\n"

def arrayTokens : List LexerOutput :=
  [header false 0 97 1, setting true 120 [49] 2, setting true 120 [50] 3, header false 1 98 4,
    { setting false 121 [51] 5 with level := 1 }]

theorem lookup_own_path_array : ∃ (h' : ConfigHeap) (r : RefState),
    configParseText arrayText .empty = some (h', .ok 0) ∧ r.doc.Laid 0 h' ∧ r.doc.path 4 = bytes "a/x/1" ∧
      configLookup h' ⟨some 0, none⟩ (r.doc.path 4) = some (some 4) := by
  have hparse : ∃ h', configParseText arrayText .empty = some (h', .ok 0) := ⟨_, rfl⟩
  obtain ⟨h', hparse⟩ := hparse
  have hlex : lexFile arrayText = arrayTokens.map .token := rfl
  obtain ⟨r, hrun, hlaid, -, hpath⟩ := lookup_own_path hlex (by decide) hparse (by decide)
  have hdoc : (Lts.run refToken .init arrayTokens).map (fun r => (r.doc.length, r.doc.path 4)) =
      some (7, bytes "a/x/1") := by decide +kernel
  rw [hrun] at hdoc
  simp only [Option.map_some, Option.some.injEq, Prod.mk.injEq] at hdoc
  have hfour := hpath 4 (by omega)
  rw [Nat.zero_add] at hfour
  exact ⟨h', r, hparse, hlaid, hdoc.2, hfour⟩

/-- **Under the path of an item is its value.** -/
theorem lookup_own_value {text : List UInt8} {ts : List LexerOutput} (hlex : lexFile text = ts.map .token)
    (hsize : text.length < 2 ^ 30) {h h' : ConfigHeap} {root : ℕ}
    (hparse : configParseText text h = some (h', .ok root)) (hsel : Lts.Along refToken Selectable .init ts) :
    ∃ r, Lts.run refToken .init ts = some r ∧ ∀ i e, r.doc[i]? = some e →
      configLookupString h' ⟨some root, none⟩ (r.doc.path i) = some (0, e.value) ∧
        configLookupBool h' ⟨some root, none⟩ (r.doc.path i) =
          e.value.map fun v => (0, some (valueBool (cStr v))) := by
  obtain ⟨r, hrun, hlaid, hfuel, hgood, hnamed, hsmall⟩ := parsed_doc hlex hsize hparse hsel
  refine ⟨r, hrun, fun i e he => ?_⟩
  have hi : i < r.doc.length := (List.getElem?_eq_some_iff.1 he).1
  exact hlaid.lookup_value he (hlaid.lookup_path hfuel hgood hnamed hsmall hi)

end Spigeon
