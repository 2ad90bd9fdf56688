import Spigeon.Spec.ConfigDoc

/-!
# Trees in the heap

On a heap that holds a tree (`ConfigDoc.Laid`) the functions of the parser do what their names say of the
tree: `find_child` finds the first child with the key (`Laid.findChild`), a climb goes to the group above
(`Laid.climb`), and a node that `add_child` has linked is one more entry of the tree (`Laid.addChild`).
-/

namespace Spigeon

namespace ConfigDoc

variable {d : ConfigDoc} {base : ℕ} {h : ConfigHeap} {e : ConfigEntry} {i j p : ℕ}

/-! ### One more entry -/

/-- Parents were added before. -/
def IsTree (d : ConfigDoc) : Prop := Forest.IsTree d.par d.length

theorem lt_length_of_par (h : d.par j = some p) : j < d.length := by
  by_contra hj
  rw [par, List.getElem?_eq_none (by omega)] at h
  cases h

theorem exists_entry (hi : i < d.length) : ∃ ei, d[i]? = some ei := ⟨d[i], List.getElem?_eq_getElem hi⟩

theorem IsTree.lt (hd : d.IsTree) (h : d.par j = some p) : p < j :=
  Forest.IsTree.lt hd (lt_length_of_par h) h

theorem mem_kids : j ∈ d.kids p ↔ d.par j = some p := by
  rw [kids, Forest.mem_kids]
  exact and_iff_right_of_imp lt_length_of_par

theorem getElem?_snoc_of_lt (hi : i < d.length) : (d ++ [e])[i]? = d[i]? :=
  List.getElem?_append_left hi

theorem par_snoc_of_lt (hi : i < d.length) : par (d ++ [e]) i = d.par i := by
  rw [par, getElem?_snoc_of_lt hi, par]

theorem par_snoc (d : ConfigDoc) (e : ConfigEntry) : par (d ++ [e]) d.length = e.parent := by
  simp [par]

theorem kids_snoc (d : ConfigDoc) (e : ConfigEntry) (p : ℕ) :
    kids (d ++ [e]) p = d.kids p ++ if e.parent = some p then [d.length] else [] := by
  have hlen : (d ++ [e]).length = d.length + 1 := by simp
  rw [kids, hlen, Forest.kids_succ, par_snoc, kids]
  congr 1
  exact Forest.kids_congr (fun j hj => par_snoc_of_lt hj) p

theorem IsTree.snoc (hd : d.IsTree) (he : e.parent = some p) (hp : p < d.length) :
    IsTree (d ++ [e]) where
  pos := by simp
  root := (par_snoc_of_lt hd.pos).trans hd.root
  parent := by
    intro j hj hlt
    rw [List.length_append, List.length_singleton] at hlt
    rcases Nat.lt_succ_iff_lt_or_eq.mp hlt with hlt | rfl
    · rw [par_snoc_of_lt hlt]
      exact hd.parent j hj hlt
    · exact ⟨p, hp, (par_snoc d e).trans he⟩

/-- The new entry has no children. -/
theorem IsTree.kids_length (hd : d.IsTree) : d.kids d.length = [] := by
  refine List.eq_nil_iff_forall_not_mem.mpr fun j hj => ?_
  have hpar := mem_kids.mp hj
  have hlt := hd.lt hpar
  have hj' := lt_length_of_par hpar
  omega

theorem before_snoc_of_lt (hj : j < d.length) :
    before (d ++ [e]) j = d.before j := by
  unfold before Forest.before
  rw [par_snoc_of_lt hj]
  cases hp : d.par j with
  | none => rfl
  | some p =>
    have hkids := kids_snoc d e p
    unfold kids at hkids
    rw [Option.elim_some, Option.elim_some, hkids, List.filter_append]
    split <;> simp
    omega

theorem before_snoc (he : e.parent = some p) :
    before (d ++ [e]) d.length = d.kids p := by
  have hkids := kids_snoc d e p
  rw [if_pos he] at hkids
  unfold kids at hkids
  unfold before Forest.before
  rw [par_snoc, he, Option.elim_some, hkids, List.filter_append]
  have hall : (Forest.kids d.par d.length p).filter (· < d.length) = Forest.kids d.par d.length p :=
    List.filter_eq_self.mpr fun j hj => by simpa using (Forest.mem_kids.mp hj).1
  simp [hall, kids]

theorem after_snoc_of_lt (hj : j < d.length) (hp : d.par j = some p) :
    after (d ++ [e]) j =
      d.after j ++ if e.parent = some p then [d.length] else [] := by
  have hkids := kids_snoc d e p
  unfold kids at hkids
  unfold after Forest.after
  rw [par_snoc_of_lt hj, hp, Option.elim_some, Option.elim_some, hkids, List.filter_append]
  split <;> simp [hj]

theorem after_snoc_of_root (hj : j < d.length) (hp : d.par j = none) :
    after (d ++ [e]) j = d.after j := by
  unfold after Forest.after
  rw [par_snoc_of_lt hj, hp]
  rfl

theorem after_snoc (he : e.parent = some p) :
    after (d ++ [e]) d.length = [] := by
  have hkids := kids_snoc d e p
  unfold kids at hkids
  unfold after Forest.after
  rw [par_snoc, he, Option.elim_some, hkids, if_pos he]
  refine List.filter_eq_nil_iff.mpr fun j hj => ?_
  rcases List.mem_append.mp hj with hj | hj
  · have hlt := (Forest.mem_kids.mp hj).1
    simp
    omega
  · simp [List.mem_singleton.mp hj]

/-! ### The nodes of a tree with one more entry -/

theorem nodeAt_snoc (hd : d.IsTree) (he : e.parent = some p) (hp : p < d.length) :
    nodeAt (d ++ [e]) base d.length e =
      { type := e.type, key := e.key, value := e.value, lineno := e.lineno
        parent := some (base + p)
        prevSibling := (d.kids p).getLast?.map (base + ·)
        index := (d.kids p).length } := by
  have hne : p ≠ d.length := hp.ne
  simp [nodeAt, before_snoc he, after_snoc he, kids_snoc, hd.kids_length, hne, he]

theorem nodeAt_snoc_parent (hd : d.IsTree) (he : e.parent = some p) (hp : p < d.length) (ep : ConfigEntry) :
    nodeAt (d ++ [e]) base p ep =
      { d.nodeAt base p ep with
        firstChild := (d.kids p ++ [d.length]).head?.map (base + ·)
        lastChild := some (base + d.length)
        length := (d.kids p).length + 1 } := by
  have hafter : after (d ++ [e]) p = d.after p := by
    cases hq : d.par p with
    | none => exact after_snoc_of_root hp hq
    | some q =>
      have hne : e.parent ≠ some q := by
        rw [he]
        intro heq
        cases heq
        exact lt_irrefl _ (hd.lt hq)
      rw [after_snoc_of_lt hp hq, if_neg hne, List.append_nil]
  simp [nodeAt, before_snoc_of_lt hp, hafter, kids_snoc, he]

/-- A node that is neither the parent nor a sibling of the new entry stays as it is, and a sibling if another one
stands behind it. -/
theorem nodeAt_snoc_other (he : e.parent = some p) (hi : i < d.length) (hip : i ≠ p)
    (hafter : d.par i = some p → d.after i ≠ []) (ei : ConfigEntry) :
    nodeAt (d ++ [e]) base i ei = d.nodeAt base i ei := by
  have hne : e.parent ≠ some i := by
    rw [he]
    intro heq
    cases heq
    exact hip rfl
  have hnext : (after (d ++ [e]) i).head? =
      (d.after i).head? := by
    cases hq : d.par i with
    | none => rw [after_snoc_of_root hi hq]
    | some q =>
      rw [after_snoc_of_lt hi hq]
      split
      next heq =>
        rw [he] at heq
        cases heq
        rw [List.head?_append_of_ne_nil _ (hafter hq)]
      next => rw [List.append_nil]
  simp [nodeAt, before_snoc_of_lt hi, hnext, kids_snoc, hne]

theorem nodeAt_snoc_last (he : e.parent = some p) (hi : d.par i = some p) (hip : i ≠ p)
    (hafter : d.after i = []) (ei : ConfigEntry) :
    nodeAt (d ++ [e]) base i ei =
      { d.nodeAt base i ei with nextSibling := some (base + d.length) } := by
  have hlt := lt_length_of_par hi
  have hne : e.parent ≠ some i := by
    rw [he]
    intro heq
    cases heq
    exact hip rfl
  have hnext := after_snoc_of_lt (e := e) hlt hi
  rw [if_pos he, hafter, List.nil_append] at hnext
  simp [nodeAt, before_snoc_of_lt hlt, hnext, kids_snoc, hne]

end ConfigDoc

/-! ### `add_child` -/

namespace ConfigHeap

variable {h : ConfigHeap} {parent child last : ℕ} {q c m n : ConfigTreeNode}

/-- A node is overwritten. -/
def put (h : ConfigHeap) (a : ℕ) (n : ConfigTreeNode) : ConfigHeap :=
  { h with node := Function.update h.node a (some n) }

@[simp] theorem put_next (h : ConfigHeap) (a : ℕ) (n : ConfigTreeNode) : (h.put a n).next = h.next := rfl

@[simp] theorem put_freed (h : ConfigHeap) (a : ℕ) (n : ConfigTreeNode) : (h.put a n).freed = h.freed := rfl

theorem put_node (h : ConfigHeap) (a b : ℕ) (n : ConfigTreeNode) :
    (h.put a n).node b = if b = a then some n else h.node b := Function.update_apply ..

@[simp] theorem put_node_self (h : ConfigHeap) (a : ℕ) (n : ConfigTreeNode) : (h.put a n).node a = some n :=
  Function.update_self ..

theorem modify_eq {a : ℕ} (ha : h.node a = some n) (f : ConfigTreeNode → ConfigTreeNode) :
    h.modify a f = some (h.put a (f n)) := by
  rw [modify, ha]
  rfl

/-- The first child of a node. -/
theorem addChild_first (hne : child ≠ parent) (hc : h.node child = some c) (hq : h.node parent = some q)
    (hfirst : q.firstChild = none) :
    h.addChild parent child = some (((((h.put child { c with parent := some parent }).put parent { q with
      firstChild := some child, lastChild := some child }).put child { c with
        parent := some parent, prevSibling := none, nextSibling := none }).put child { c with
        parent := some parent, prevSibling := none, nextSibling := none, index := q.length }).put parent { q with
        firstChild := some child, lastChild := some child, length := q.length + 1 }) := by
  have hpc := hne.symm
  rw [addChild, modify_eq hc]
  simp only [Option.bind_eq_bind, Option.bind_some, put_node, if_neg hpc, hq, hfirst, if_true]
  rw [modify_eq (n := q) (by simp [put_node, hpc, hq])]
  simp only [Option.bind_some]
  rw [modify_eq (n := { c with parent := some parent }) (by simp [put_node, hne])]
  simp only [Option.bind_some, put_node, if_neg hpc, if_true]
  rw [modify_eq (put_node_self ..)]
  simp only [Option.bind_some]
  rw [modify_eq (n := { q with firstChild := some child, lastChild := some child })
    (by simp [put_node, hpc])]

/-- A child behind others. -/
theorem addChild_next (hne : child ≠ parent) (hlc : last ≠ child) (hlp : last ≠ parent)
    (hc : h.node child = some c) (hq : h.node parent = some q) (hm : h.node last = some m)
    (hfirst : q.firstChild ≠ none) (hlast : q.lastChild = some last) :
    h.addChild parent child = some ((((((h.put child { c with parent := some parent }).put child { c with
      parent := some parent, prevSibling := some last, nextSibling := none }).put last { m with
        nextSibling := some child }).put parent { q with lastChild := some child }).put child { c with
          parent := some parent, prevSibling := some last, nextSibling := none, index := q.length }).put parent
            { q with lastChild := some child, length := q.length + 1 }) := by
  have hpc := hne.symm
  rw [addChild, modify_eq hc]
  simp only [Option.bind_eq_bind, Option.bind_some, put_node, if_neg hpc, hq, if_neg hfirst, hlast]
  rw [modify_eq (put_node_self ..)]
  simp only [Option.bind_some]
  rw [modify_eq (n := m) (by simp [put_node, hlc, hm])]
  simp only [Option.bind_some]
  rw [modify_eq (n := q) (by simp [put_node, hpc, hlp.symm, hq])]
  simp only [Option.bind_some, put_node_self]
  rw [modify_eq (n := { c with parent := some parent, prevSibling := some last, nextSibling := none })
    (by simp [put_node, hne, hlc.symm])]
  simp only [Option.bind_some]
  rw [modify_eq (n := { q with lastChild := some child }) (by simp [put_node, hpc])]

end ConfigHeap

/-! ### A node is added -/

namespace ConfigDoc

variable {d : ConfigDoc} {base p : ℕ} {h : ConfigHeap} {e : ConfigEntry}

/-- A node as it is before it is linked. -/
def ofEntry (e : ConfigEntry) : ConfigTreeNode :=
  { type := e.type, key := e.key, value := e.value, lineno := e.lineno }

theorem getElem?_snoc {i : ℕ} {ei : ConfigEntry} (h : (d ++ [e])[i]? = some ei) :
    (i < d.length ∧ d[i]? = some ei) ∨ (i = d.length ∧ ei = e) := by
  rcases Nat.lt_or_ge i d.length with hi | hi
  · exact Or.inl ⟨hi, by rwa [getElem?_snoc_of_lt hi] at h⟩
  · have hlt : i < (d ++ [e]).length := (List.getElem?_eq_some_iff.mp h).1
    obtain rfl : i = d.length := by
      rw [List.length_append, List.length_singleton] at hlt
      omega
    exact Or.inr ⟨rfl, by simpa using h.symm⟩

theorem after_ne_nil {i l : ℕ} {pre : List ℕ} (hkids : d.kids p = pre ++ [l]) (hi : d.par i = some p)
    (hil : i ≠ l) : d.after i ≠ [] := by
  have hmem : i ∈ d.kids p := mem_kids.mpr hi
  have hsort := Forest.kids_sorted d.par d.length p
  change (d.kids p).Pairwise (· < ·) at hsort
  rw [hkids, List.pairwise_append] at hsort
  rw [hkids, List.mem_append, List.mem_singleton] at hmem
  have hlt : i < l := hsort.2.2 i (hmem.resolve_right hil) l (List.mem_singleton_self l)
  have hl : l ∈ d.kids p := by
    rw [hkids]
    exact List.mem_append_right _ (List.mem_singleton_self l)
  have hafter : l ∈ d.after i := by
    rw [after, Forest.after, hi, Option.elim_some]
    exact List.mem_filter.mpr ⟨hl, by simpa using hlt⟩
  exact List.ne_nil_of_mem hafter

/-- A heap holds one more entry if its node and that of its parent are right, and those of the others are right
too. -/
theorem Laid.snoc {h' : ConfigHeap}
    (hnew : h'.node (base + d.length) = some (nodeAt (d ++ [e]) base d.length e))
    (hparent : ∀ ep, d[p]? = some ep → h'.node (base + p) = some (nodeAt (d ++ [e]) base p ep))
    (hother : ∀ i ei, i < d.length → i ≠ p → d[i]? = some ei →
      h'.node (base + i) = some (nodeAt (d ++ [e]) base i ei)) : Laid (d ++ [e]) base h' := by
  intro i ei hi
  obtain ⟨hi, hei⟩ | ⟨rfl, rfl⟩ := getElem?_snoc hi
  · by_cases hip : i = p
    · subst hip
      exact hparent ei hei
    · exact hother i ei hi hip hei
  · exact hnew

/-- A node that is allocated is not one of the tree. -/
theorem Laid.alloc (hlaid : d.Laid base h) (hnext : h.next = base + d.length) (n : ConfigTreeNode) :
    d.Laid base (h.alloc n) := by
  intro i ei hei
  have hi := (List.getElem?_eq_some_iff.mp hei).1
  have hne : base + i ≠ h.next := by omega
  exact (Function.update_of_ne hne ..).trans (hlaid i ei hei)

section AddChild

variable (hlaid : d.Laid base h) (hd : d.IsTree) (he : e.parent = some p) (hp : p < d.length)
  (hnext : h.next = base + d.length)

include hlaid hd he hp hnext

theorem Laid.addChild_first (hkids : d.kids p = []) :
    ∃ h', (h.alloc (ofEntry e)).addChild (base + p) h.next = some h' ∧ Laid (d ++ [e]) base h' ∧
      h'.next = h.next + 1 ∧ h'.freed = h.freed := by
  obtain ⟨ep, hep⟩ := exists_entry hp
  have hne : h.next ≠ base + p := by omega
  have hc : (h.alloc (ofEntry e)).node h.next = some (ofEntry e) := Function.update_self ..
  have hold := hlaid.alloc hnext (ofEntry e)
  have hq := hold p ep hep
  have hfirst : (d.nodeAt base p ep).firstChild = none := by simp [nodeAt, hkids]
  refine ⟨_, ConfigHeap.addChild_first hne hc hq hfirst, ?_, rfl, rfl⟩
  refine Laid.snoc (p := p) ?_ ?_ ?_
  · rw [← hnext, nodeAt_snoc hd he hp]
    simp only [ConfigHeap.put_node, if_neg hne, if_true]
    simp [nodeAt, hkids, ofEntry]
  · intro ep' hep'
    obtain rfl : ep' = ep := Option.some.inj (hep'.symm.trans hep)
    rw [ConfigHeap.put_node_self, nodeAt_snoc_parent hd he hp]
    simp [nodeAt, hkids, hnext]
  · intro i ei hi hip hei
    have hin : base + i ≠ h.next := by omega
    have hbase : base + i ≠ base + p := by omega
    have hleaf : d.par i = some p → d.after i ≠ [] := by
      intro hpar
      have hmem := mem_kids.mpr hpar
      rw [hkids] at hmem
      cases hmem
    rw [nodeAt_snoc_other he hi hip hleaf]
    simp only [ConfigHeap.put_node, if_neg hin, if_neg hbase]
    exact hold i ei hei

theorem Laid.addChild_next {pre : List ℕ} {l : ℕ} (hkids : d.kids p = pre ++ [l]) :
    ∃ h', (h.alloc (ofEntry e)).addChild (base + p) h.next = some h' ∧ Laid (d ++ [e]) base h' ∧
      h'.next = h.next + 1 ∧ h'.freed = h.freed := by
  obtain ⟨ep, hep⟩ := exists_entry hp
  have hl : d.par l = some p := by
    refine mem_kids.mp ?_
    rw [hkids]
    exact List.mem_append_right _ (List.mem_singleton_self l)
  have hpl := hd.lt hl
  have hln := lt_length_of_par hl
  obtain ⟨el, hel⟩ := exists_entry hln
  have hne : h.next ≠ base + p := by omega
  have hlc : base + l ≠ h.next := by omega
  have hlp : base + l ≠ base + p := by omega
  have hc : (h.alloc (ofEntry e)).node h.next = some (ofEntry e) := Function.update_self ..
  have hold := hlaid.alloc hnext (ofEntry e)
  have hq := hold p ep hep
  have hm := hold l el hel
  have hfirst : (d.nodeAt base p ep).firstChild ≠ none := by simp [nodeAt, hkids]
  have hlast : (d.nodeAt base p ep).lastChild = some (base + l) := by simp [nodeAt, hkids]
  refine ⟨_, ConfigHeap.addChild_next hne hlc hlp hc hq hm hfirst hlast, ?_, rfl, rfl⟩
  -- written are the new node, its parent and the sibling before it
  refine Laid.snoc (p := p) ?_ ?_ ?_
  · rw [← hnext, nodeAt_snoc hd he hp]
    simp only [ConfigHeap.put_node, if_neg hne, if_true]
    simp [nodeAt, hkids, ofEntry]
  · intro ep' hep'
    obtain rfl : ep' = ep := Option.some.inj (hep'.symm.trans hep)
    rw [ConfigHeap.put_node_self, nodeAt_snoc_parent hd he hp]
    simp [nodeAt, hkids, hnext]
  · intro i ei hi hip hei
    have hin : base + i ≠ h.next := by omega
    have hbase : base + i ≠ base + p := by omega
    by_cases hil : i = l
    · subst hil
      have hend : d.after i = [] := Forest.after_of_split hl hkids
      obtain rfl : ei = el := Option.some.inj (hei.symm.trans hel)
      rw [nodeAt_snoc_last he hl hip hend, ← hnext]
      simp only [ConfigHeap.put_node, if_neg hin, if_neg hbase, if_true]
    · have hbl : base + i ≠ base + l := by omega
      rw [nodeAt_snoc_other he hi hip fun hpar => after_ne_nil hkids hpar hil]
      simp only [ConfigHeap.put_node, if_neg hin, if_neg hbase, if_neg hbl]
      exact hold i ei hei

/-- **A child that is linked is one more entry of the tree.** -/
theorem Laid.addChild :
    ∃ h', (h.alloc (ofEntry e)).addChild (base + p) h.next = some h' ∧ Laid (d ++ [e]) base h' ∧
      h'.next = h.next + 1 ∧ h'.freed = h.freed := by
  rcases List.eq_nil_or_concat (d.kids p) with hkids | ⟨pre, l, hkids⟩
  · exact hlaid.addChild_first hd he hp hnext hkids
  · exact hlaid.addChild_next hd he hp hnext (hkids.trans List.concat_eq_append)

end AddChild

/-! ### Looking up and climbing -/

/-- The group above: arrays are skipped. -/
def up (d : ConfigDoc) (x : ℕ) : Option ℕ :=
  (d.par x).bind fun p => if d.typeOf p = some .array then d.par p else some p

def climb (d : ConfigDoc) : ℕ → ℕ → Option ℕ
  | 0, x => some x
  | n + 1, x => (d.up x).bind (d.climb n)

theorem Laid.node (hlaid : d.Laid base h) {i : ℕ} (hi : i < d.length) :
    ∃ ei, d[i]? = some ei ∧ h.node (base + i) = some (d.nodeAt base i ei) := by
  obtain ⟨ei, hei⟩ := exists_entry hi
  exact ⟨ei, hei, hlaid i ei hei⟩

theorem Laid.findFrom (hlaid : d.Laid base h) (key : List UInt8) {pre post : List ℕ}
    (hkids : d.kids p = pre ++ post) {fuel : ℕ} (hfuel : post.length ≤ fuel) :
    h.findFrom key fuel (post.head?.map (base + ·)) =
      some ((post.find? fun j => (d.keyOf j).getD [] = key).map (base + ·)) := by
  induction post generalizing pre fuel with
  | nil => cases fuel <;> rfl
  | cons j post ih =>
    obtain ⟨fuel, rfl⟩ : ∃ n, fuel = n + 1 := ⟨fuel - 1, by simp at hfuel; omega⟩
    have hj : d.par j = some p := by
      refine mem_kids.mp ?_
      rw [hkids]
      exact List.mem_append_right _ List.mem_cons_self
    obtain ⟨ej, hej, hnode⟩ := hlaid.node (lt_length_of_par hj)
    have hkey : d.keyOf j = ej.key := by rw [keyOf, hej, Option.bind_some]
    have hafter : d.after j = post := Forest.after_of_split hj hkids
    have hsplit : d.kids p = (pre ++ [j]) ++ post := by rw [hkids, List.append_assoc, List.singleton_append]
    have hrest := ih hsplit (Nat.le_of_succ_le_succ hfuel)
    rw [List.head?_cons, Option.map_some, ConfigHeap.findFrom, hnode]
    simp only [Option.bind_eq_bind, Option.bind_some, nodeAt, hafter, List.find?_cons, hkey]
    by_cases hsame : ej.key.getD [] = key
    · simp [hsame]
    · simp only [hsame, if_false, decide_false]
      exact hrest

theorem kids_length_le (d : ConfigDoc) (p : ℕ) : (d.kids p).length ≤ d.length :=
  (List.length_filter_le _ _).trans_eq List.length_range

theorem Laid.findChild (hlaid : d.Laid base h) (hp : p < d.length) (hfuel : d.length ≤ h.next)
    (key : List UInt8) :
    h.findChild (base + p) key = some ((d.child p key).map (base + ·)) := by
  obtain ⟨ep, -, hnode⟩ := hlaid.node hp
  rw [ConfigHeap.findChild, hnode]
  exact hlaid.findFrom key (List.nil_append _).symm ((d.kids_length_le p).trans hfuel)

theorem Laid.up (hlaid : d.Laid base h) (hd : d.IsTree) {x : ℕ} (hx : x < d.length) :
    h.up (base + x) = (d.up x).map (base + ·) := by
  obtain ⟨ex, hex, hnode⟩ := hlaid.node hx
  have hpar : d.par x = ex.parent := by rw [par, hex, Option.bind_some]
  rw [ConfigHeap.up, hnode, ConfigDoc.up, hpar]
  cases hp : ex.parent with
  | none => simp [nodeAt, hp]
  | some p =>
    have hlt : p < d.length := (hd.lt (hpar.trans hp)).trans hx
    obtain ⟨ep, hep, hnodep⟩ := hlaid.node hlt
    have htype : d.typeOf p = some ep.type := by rw [typeOf, hep, Option.map_some]
    have hparp : d.par p = ep.parent := by rw [par, hep, Option.bind_some]
    simp only [Option.bind_eq_bind, Option.bind_some, nodeAt, hp, Option.map_some, hnodep, htype, hparp,
      Option.some.injEq]
    split <;> rfl

theorem IsTree.up_lt (hd : d.IsTree) {x y : ℕ} (h : d.up x = some y) : y < x := by
  obtain ⟨p, hp, hy⟩ := Option.bind_eq_some_iff.mp h
  have hlt := hd.lt hp
  split at hy
  next => exact (hd.lt hy).trans hlt
  next => cases hy; exact hlt

theorem Laid.climb (hlaid : d.Laid base h) (hd : d.IsTree) (n : ℕ) {x : ℕ} (hx : x < d.length) :
    h.climb n (base + x) = (d.climb n x).map (base + ·) := by
  induction n generalizing x with
  | zero => rfl
  | succ n ih =>
    rw [ConfigHeap.climb, ConfigDoc.climb, hlaid.up hd hx]
    cases hup : d.up x with
    | none => rfl
    | some y => exact ih ((hd.up_lt hup).trans hx)

end ConfigDoc

end Spigeon
