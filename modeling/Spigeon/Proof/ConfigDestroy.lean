import Spigeon.Proof.ConfigHeap

/-!
# A tree is destroyed

`config_node_destroy` frees a tree without a stack. The nodes that it still has to free are a queue threaded
through their sibling links, and before a node is freed its children are put behind the last one
(`Threaded.round`). That is a breadth-first walk, so every node is freed once, whatever the shape of the tree.

* `Laid.nodeDestroy`: the walk comes to its end without a fault, and what it frees is the tree.
-/

namespace Spigeon

theorem ConfigHeap.free_eq {h : ConfigHeap} {a : ℕ} {n : ConfigTreeNode} (ha : h.node a = some n) :
    h.free a = some { h with node := Function.update h.node a none, freed := h.freed ++ [a] } := by
  rw [free, ha]
  rfl

namespace ConfigDoc

variable {d : ConfigDoc} {base x z : ℕ} {h h' : ConfigHeap} {q l done : List ℕ}

/-! ### The queue -/

/-- The nodes of a queue are those of the tree but for the link to the next one. -/
def Queued (d : ConfigDoc) (base : ℕ) (h : ConfigHeap) : List ℕ → Prop
  | [] => True
  | x :: q =>
    (∃ e, d[x]? = some e ∧
      h.node (base + x) = some { d.nodeAt base x e with nextSibling := q.head?.map (base + ·) }) ∧
    Queued d base h q

theorem Queued.congr (hq : Queued d base h q) (hsame : ∀ y ∈ q, h'.node (base + y) = h.node (base + y)) :
    Queued d base h' q := by
  induction q with
  | nil => trivial
  | cons y q ih =>
    obtain ⟨⟨e, he, hnode⟩, hq⟩ := hq
    refine ⟨⟨e, he, (hsame y List.mem_cons_self).trans hnode⟩, ih hq ?_⟩
    intro y' hy'
    exact hsame y' (List.mem_cons_of_mem y hy')

/-- Children that have not been touched are a queue. -/
theorem queued_kids (hkids : ∀ y ∈ d.kids x, ∀ e, d[y]? = some e → h.node (base + y) = some (d.nodeAt base y e)) :
    Queued d base h (d.kids x) := by
  have hsuffix : ∀ pre l, d.kids x = pre ++ l → Queued d base h l := by
    intro pre l hl
    induction l generalizing pre with
    | nil => trivial
    | cons y l ih =>
      have hmem : y ∈ d.kids x := by
        rw [hl]
        exact List.mem_append_right _ List.mem_cons_self
      have hpar := mem_kids.mp hmem
      have hafter : d.after y = l := Forest.after_of_split hpar hl
      obtain ⟨e, hy⟩ := exists_entry (lt_length_of_par hpar)
      refine ⟨⟨e, hy, ?_⟩, ih (pre ++ [y]) (hl.trans (List.append_cons ..))⟩
      rw [hkids y hmem e hy, ← hafter]
      rfl
  exact hsuffix [] _ rfl

/-- Another queue is put behind the last node. -/
theorem Queued.append {m : ConfigTreeNode} (hq : Queued d base h (q ++ [z])) (hl : Queued d base h l)
    (hzq : z ∉ q) (hzl : z ∉ l) (hm : h.node (base + z) = some m) :
    Queued d base (h.put (base + z) { m with nextSibling := l.head?.map (base + ·) }) (q ++ z :: l) := by
  have hother : ∀ y, y ≠ z → (h.put (base + z) { m with nextSibling := l.head?.map (base + ·) }).node (base + y) =
      h.node (base + y) := by
    intro y hy
    rw [ConfigHeap.put_node, if_neg (by omega)]
  induction q with
  | nil =>
    obtain ⟨⟨e, he, hnode⟩, -⟩ := hq
    refine ⟨⟨e, he, ?_⟩, hl.congr fun y hy => hother y ?_⟩
    · rw [hm] at hnode
      cases hnode
      exact ConfigHeap.put_node_self ..
    · rintro rfl
      exact hzl hy
  | cons y q ih =>
    obtain ⟨⟨e, he, hnode⟩, hq⟩ := hq
    rw [List.mem_cons, not_or] at hzq
    refine ⟨⟨e, he, ?_⟩, ih hq hzq.2⟩
    rw [hother y (Ne.symm hzq.1), hnode]
    cases q <;> rfl

/-! ### The walk -/

/-- The state of the walk: the queue is threaded, and what was not met yet is as in the tree. -/
structure Threaded (d : ConfigDoc) (base : ℕ) (h : ConfigHeap) (done queue : List ℕ) : Prop where
  walk : Forest.Walk d.par d.length done queue
  queued : Queued d base h queue
  rest : ∀ y e, d[y]? = some e → y ∉ done ++ queue → h.node (base + y) = some (d.nodeAt base y e)

/-- `last` is the last node of the queue. -/
def IsLast (base : ℕ) (queue : List ℕ) (last : ℕ) : Prop := ∀ y, queue.getLast? = some y → last = base + y

theorem Queued.node (hq : Queued d base h q) (hx : x ∈ q) : ∃ n, h.node (base + x) = some n := by
  induction q with
  | nil => cases hx
  | cons y q ih =>
    rcases List.mem_cons.mp hx with rfl | hx
    · obtain ⟨⟨e, -, hnode⟩, -⟩ := hq
      exact ⟨_, hnode⟩
    · exact ih hq.2 hx

/-- The last node of a queue, and what stands before it. -/
theorem exists_last (x : ℕ) (q : List ℕ) : ∃ q' z, x :: q = q' ++ [z] := by
  rcases List.eq_nil_or_concat (x :: q) with hnil | ⟨q', z, hz⟩
  · cases hnil
  · exact ⟨q', z, hz.trans List.concat_eq_append⟩

section Link

variable (ht : Threaded d base h done (x :: q)) {last : ℕ} (hlast : IsLast base (x :: q) last)

include ht hlast

/-- A node without children leaves the queue as it is. -/
theorem Threaded.link_leaf {n : ConfigTreeNode} (hfirst : n.firstChild = none) (hkids : d.kids x = []) :
    h.linkChildren n last = some (h, last) ∧ Queued d base h (x :: (q ++ d.kids x)) ∧
      IsLast base (q ++ d.kids x) last := by
  rw [hkids, List.append_nil]
  refine ⟨by rw [ConfigHeap.linkChildren, hfirst], ht.queued, fun y hy => hlast y ?_⟩
  cases q with
  | nil => cases hy
  | cons y' q => exact hy

/-- The children are put behind the last node `z`. -/
theorem Threaded.link_kids {n : ConfigTreeNode} {first k : ℕ} {pre : List ℕ}
    (hfirst : n.firstChild = some (base + first)) (hhead : (d.kids x).head? = some first)
    (hlastChild : n.lastChild = some (base + k)) (hkids : d.kids x = pre ++ [k]) :
    ∃ z ∈ x :: q, ∃ m, h.linkChildren n last = some (h.put (base + z) m, base + k) ∧
      Queued d base (h.put (base + z) m) (x :: (q ++ d.kids x)) ∧ IsLast base (q ++ d.kids x) (base + k) := by
  obtain ⟨q', z, hz⟩ := exists_last x q
  have hmem : z ∈ x :: q := by
    rw [hz]
    exact List.mem_append_right _ (List.mem_singleton_self z)
  have hnodup : (q' ++ [z]).Nodup := hz ▸ (List.nodup_append.mp ht.walk.nodup).2.1
  obtain ⟨m, hm⟩ := ht.queued.node hmem
  obtain rfl : last = base + z := hlast z (by rw [hz, List.getLast?_concat])
  refine ⟨z, hmem, { m with nextSibling := (d.kids x).head?.map (base + ·) }, ?_, ?_, fun y hy => ?_⟩
  · rw [ConfigHeap.linkChildren, hfirst, hlastChild, hhead]
    dsimp only
    rw [ConfigHeap.modify_eq hm]
    rfl
  · have hqueue : x :: (q ++ d.kids x) = q' ++ z :: d.kids x := by
      rw [← List.cons_append, hz, List.append_assoc]
      rfl
    rw [hqueue]
    refine (hz ▸ ht.queued).append (queued_kids fun y hy e he => ?_) ?_ ?_ hm
    · exact ht.rest y e he (ht.walk.kids_new hy)
    · intro hzq
      exact (List.nodup_append.mp hnodup).2.2 z hzq z (List.mem_singleton_self z) rfl
    · intro hzk
      exact ht.walk.kids_new hzk (List.mem_append_right _ hmem)
  · rw [hkids, ← List.append_assoc, List.getLast?_concat] at hy
    cases hy
    rfl

/-- **The children of the head are put behind the last node.** -/
theorem Threaded.link {n : ConfigTreeNode} (hfirst : n.firstChild = (d.kids x).head?.map (base + ·))
    (hlastChild : n.lastChild = (d.kids x).getLast?.map (base + ·)) :
    ∃ h' last', h.linkChildren n last = some (h', last') ∧ h'.freed = h.freed ∧ h'.next = h.next ∧
      Queued d base h' (x :: (q ++ d.kids x)) ∧
      (∀ y e, d[y]? = some e → y ∉ done ++ [x] ++ (q ++ d.kids x) →
        h'.node (base + y) = some (d.nodeAt base y e)) ∧
      IsLast base (q ++ d.kids x) last' := by
  have hsub : ∀ y, y ∉ done ++ [x] ++ (q ++ d.kids x) → y ∉ done ++ x :: q := by
    intro y hy hmem
    refine hy ?_
    rw [← List.append_assoc, List.append_assoc done]
    exact List.mem_append_left _ hmem
  rcases List.eq_nil_or_concat (d.kids x) with hkids | ⟨pre, k, hkids⟩
  · rw [hkids] at hfirst
    -- a node without children leaves the queue as it is
    obtain ⟨hlink, hq, hlast'⟩ := ht.link_leaf hlast hfirst hkids
    exact ⟨h, last, hlink, rfl, rfl, hq, fun y e hy hmem => ht.rest y e hy (hsub y hmem), hlast'⟩
  · rw [List.concat_eq_append] at hkids
    obtain ⟨first, hhead⟩ : ∃ first, (d.kids x).head? = some first := by
      refine Option.isSome_iff_exists.mp ?_
      rw [hkids]
      simp
    rw [hhead] at hfirst
    rw [hkids, List.getLast?_concat] at hlastChild
    obtain ⟨z, hz, m, hlink, hq, hlast'⟩ := ht.link_kids hlast hfirst hhead hlastChild hkids
    refine ⟨_, _, hlink, rfl, rfl, hq, fun y e hy hmem => ?_, hlast'⟩
    -- written is only the last node of the queue
    have hyz : y ≠ z := by
      rintro rfl
      exact hsub y hmem (List.mem_append_right _ hz)
    rw [ConfigHeap.put_node, if_neg (by omega)]
    exact ht.rest y e hy (hsub y hmem)

end Link

/-- The head of a queue is freed. -/
theorem Threaded.free (hw : Forest.Walk d.par d.length (done ++ [x]) l) (hq : Queued d base h (x :: l))
    (hrest : ∀ y e, d[y]? = some e → y ∉ done ++ [x] ++ l → h.node (base + y) = some (d.nodeAt base y e)) :
    ∃ n h', h.node (base + x) = some n ∧ n.nextSibling = l.head?.map (base + ·) ∧ h.free (base + x) = some h' ∧
      h'.freed = h.freed ++ [base + x] ∧ h'.next = h.next ∧ Threaded d base h' (done ++ [x]) l := by
  obtain ⟨⟨e, he, hnode⟩, hq⟩ := hq
  have hother : ∀ y, y ≠ x → Function.update h.node (base + x) none (base + y) = h.node (base + y) :=
    fun y hy => Function.update_of_ne (by omega) ..
  refine ⟨_, _, hnode, rfl, ConfigHeap.free_eq hnode, rfl, rfl, hw, hq.congr ?_, ?_⟩
  · intro y hy
    refine hother y ?_
    rintro rfl
    have hdisj := (List.nodup_append.mp hw.nodup).2.2
    exact hdisj y (List.mem_append_right _ (List.mem_singleton_self y)) y hy rfl
  · intro y e hy hmem
    refine (hother y ?_).trans (hrest y e hy hmem)
    rintro rfl
    exact hmem (List.mem_append_left _ (List.mem_append_right _ (List.mem_singleton_self y)))

/-- **A round of the loop is a step of the walk.** -/
theorem Threaded.round (ht : Threaded d base h done (x :: q)) {last : ℕ} (hlast : IsLast base (x :: q) last)
    (fuel : ℕ) :
    ∃ h' last', ConfigHeap.destroyLoop (fuel + 1) h (some (base + x)) last =
        ConfigHeap.destroyLoop fuel h' ((q ++ d.kids x).head?.map (base + ·)) last' ∧
      h'.freed = h.freed ++ [base + x] ∧ h'.next = h.next ∧ Threaded d base h' (done ++ [x]) (q ++ d.kids x) ∧
      IsLast base (q ++ d.kids x) last' := by
  obtain ⟨⟨e, he, hnode⟩, -⟩ := ht.queued
  obtain ⟨h₁, last', hlink, hfreed₁, hnext₁, hq₁, hrest₁, hlast'⟩ := ht.link hlast (n :=
    { d.nodeAt base x e with nextSibling := q.head?.map (base + ·) }) rfl rfl
  obtain ⟨n, h', hn, hsibling, hfree, hfreed, hnext, ht'⟩ := Threaded.free ht.walk.step hq₁ hrest₁
  refine ⟨h', last', ?_, by rw [hfreed, hfreed₁], hnext.trans hnext₁, ht', hlast'⟩
  rw [ConfigHeap.destroyLoop, hnode, Option.bind_eq_bind, Option.bind_some, hlink, Option.bind_eq_bind,
    Option.bind_some]
  dsimp only
  rw [hn, Option.bind_eq_bind, Option.bind_some, hfree, Option.bind_some, hsibling]
  rfl

/-- The loop comes to its end. -/
theorem Threaded.run (hd : d.IsTree) {fuel : ℕ} (ht : Threaded d base h done q) {last : ℕ}
    (hlast : IsLast base q last) (hfuel : d.length ≤ done.length + fuel) :
    ∃ h' l, ConfigHeap.destroyLoop fuel h (q.head?.map (base + ·)) last = some h' ∧ h'.next = h.next ∧
      h'.freed = h.freed ++ l.map (base + ·) ∧ (done ++ l).Perm (List.range d.length) := by
  induction fuel generalizing h done q last with
  | zero =>
    -- every node of the document is freed, so the queue is empty
    have hle := ht.walk.length_le
    rw [List.length_append] at hle
    obtain rfl : q = [] := List.length_eq_zero_iff.mp (by omega)
    refine ⟨h, [], rfl, rfl, (List.append_nil _).symm, ?_⟩
    rw [List.append_nil]
    exact ht.walk.perm hd
  | succ fuel ih =>
    cases q with
    | nil =>
      refine ⟨h, [], rfl, rfl, (List.append_nil _).symm, ?_⟩
      rw [List.append_nil]
      exact ht.walk.perm hd
    | cons x q =>
      obtain ⟨h₁, last₁, hround, hfreed₁, hnext₁, ht₁, hlast₁⟩ := ht.round hlast fuel
      have hlen : (done ++ [x]).length = done.length + 1 := List.length_append
      obtain ⟨h', l, hloop, hnext, hfreed, hperm⟩ := ih ht₁ hlast₁ (by omega)
      refine ⟨h', x :: l, hround.trans hloop, hnext.trans hnext₁, ?_, ?_⟩
      · rw [hfreed, hfreed₁, List.append_assoc]
        rfl
      · rw [List.append_cons]
        exact hperm

/-- **`config_node_destroy` frees every node of a tree once.** -/
theorem Laid.nodeDestroy (hlaid : d.Laid base h) (hd : d.IsTree) (hnext : base + d.length ≤ h.next) :
    ∃ h' l, h.nodeDestroy base = some h' ∧ h'.next = h.next ∧ h'.freed = h.freed ++ l ∧
      l.Perm (List.range' base d.length) := by
  obtain ⟨e, he, hnode⟩ := hlaid.node hd.pos
  have hroot : (d.after 0).head?.map (base + ·) = none := by
    have hpar : d.par 0 = none := hd.root
    rw [after, Forest.after, hpar]
    rfl
  have hqueued : Queued d base h [0] := by
    refine ⟨⟨e, he, ?_⟩, trivial⟩
    rw [hnode]
    simp [nodeAt, hroot]
  have ht : Threaded d base h [] [0] := ⟨Forest.Walk.init hd, hqueued, fun y e hy _ => hlaid y e hy⟩
  have hlast : IsLast base [0] base := by
    intro y hy
    cases hy
    rfl
  have hfuel : d.length ≤ ([] : List ℕ).length + h.next := by
    rw [List.length_nil]
    omega
  obtain ⟨h', l, hloop, hnext', hfreed, hperm⟩ := ht.run hd hlast hfuel
  refine ⟨h', l.map (base + ·), hloop, hnext', hfreed, ?_⟩
  rw [List.range'_eq_map_range]
  exact hperm.map _

end ConfigDoc

end Spigeon
