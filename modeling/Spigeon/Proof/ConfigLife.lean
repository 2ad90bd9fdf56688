import Spigeon.Lib.Lts
import Spigeon.Proof.ConfigDestroy
import Spigeon.Proof.ConfigParse

/-!
# The life of a configuration object

A `config_t` reads one file after another and is destroyed at the end. While it is `Whole`, every node that was
ever built is part of the tree of its root or was freed once, and a call that succeeds keeps it so
(`Whole.read_tree`). A call that fails with a tree in place destroys that tree and leaves the root as it was.

* `config_life_iff`: the object is sound over all its life exactly if no call fails after one that succeeded.
-/

namespace Spigeon

/-! ### What `config_parse_file` leaves behind -/

/-- The tree that a call builds, and the error that ends it. -/
def ParseCall.tree (c : ParseCall) : DocM DocState :=
  match c.initError, c.setfileError with
  | none, none => docLoop c.calloc c.results .init
  | some errno, _ => .error (.system errno, .init)
  | none, some errno => .error (.system errno, .init)

section Parse

variable {c : ParseCall} {d : DocState} {e : ConfigError}

theorem configParseFile_of_calloc (hcalloc : c.calloc 0 = false) (h : ConfigHeap) :
    configParseFile c h = some (h, .error (.system ENOMEM)) := by
  rw [configParseFile, hcalloc]
  rfl

theorem configParseFile_of_tree (hcalloc : c.calloc 0 = true) (htree : c.tree = .ok d) (h : ConfigHeap) :
    ∃ s, configParseFile c h = some (s.heap, .ok h.next) ∧ Rel h.next h.freed s d := by
  unfold ParseCall.tree at htree
  rw [configParseFile, if_pos hcalloc]
  split at htree
  next hinit hset =>
    have hrefines := parseLoop_init c.calloc c.results h
    rw [htree] at hrefines
    obtain ⟨s, hrun, hrel⟩ := hrefines
    refine ⟨s, ?_, hrel⟩
    dsimp only
    rw [hinit, hset]
    dsimp only
    rw [hrun]
    rfl
  next => cases htree
  next => cases htree

/-- The label `error` frees what was built. -/
theorem Rel.parseError {base : ℕ} {freed : List ℕ} {s : ParseState} (hrel : Rel base freed s d)
    (e : ConfigError) :
    ∃ h' l, Spigeon.parseError base e s.heap = some (h', .error e) ∧ h'.next = base + d.doc.length ∧
      h'.freed = freed ++ l ∧ l.Perm (List.range' base d.doc.length) := by
  obtain ⟨h', l, hdestroy, hnext, hfreed, hperm⟩ := hrel.laid.nodeDestroy hrel.tree hrel.next.ge
  refine ⟨h', l, ?_, hnext.trans hrel.next, ?_, hperm⟩
  · rw [Spigeon.parseError, hdestroy]
    rfl
  · rw [hfreed, hrel.freed_eq]

theorem configParseFile_of_error (hcalloc : c.calloc 0 = true) (htree : c.tree = .error (e, d)) (h : ConfigHeap) :
    ∃ h' l, configParseFile c h = some (h', .error e) ∧ h'.next = h.next + d.doc.length ∧
      h'.freed = h.freed ++ l ∧ l.Perm (List.range' h.next d.doc.length) := by
  have hinit := Rel.init h
  unfold ParseCall.tree at htree
  rw [configParseFile, if_pos hcalloc]
  dsimp only
  split at htree
  next hi hset =>
    have hrefines := parseLoop_init c.calloc c.results h
    rw [htree] at hrefines
    obtain ⟨s, hrun, hrel⟩ := hrefines
    rw [hi, hset]
    dsimp only
    rw [hrun, Option.bind_some]
    exact hrel.parseError e
  next hi =>
    -- only the root was built
    cases htree
    rw [hi]
    obtain ⟨n, -, hnode⟩ := hinit.laid.node hinit.tree.pos
    have hfree : (ParseState.init h).heap.free h.next = some _ := ConfigHeap.free_eq hnode
    dsimp only
    rw [hfree]
    exact ⟨_, [h.next], rfl, rfl, rfl, List.Perm.refl _⟩
  next hi hset =>
    cases htree
    rw [hi, hset]
    exact hinit.parseError _

/-- The call returns a tree. -/
def ParseCall.Succeeds (c : ParseCall) : Prop := ∃ h root, configParseFile c .empty = some (h, .ok root)

/-- A call that succeeds adds a tree to the heap, in whatever state it is. -/
theorem ParseCall.Succeeds.spec (hc : c.Succeeds) (h : ConfigHeap) :
    ∃ (h' : ConfigHeap) (doc : ConfigDoc), configParseFile c h = some (h', .ok h.next) ∧ doc.IsTree ∧
      doc.Laid h.next h' ∧ h'.next = h.next + doc.length ∧ h'.freed = h.freed := by
  obtain ⟨h₀, root, hparse⟩ := hc
  cases hcalloc : c.calloc 0 with
  | false =>
    rw [configParseFile_of_calloc hcalloc] at hparse
    cases hparse
  | true =>
    cases htree : c.tree with
    | error p =>
      obtain ⟨h', l, herror, -⟩ := configParseFile_of_error hcalloc htree .empty
      rw [herror] at hparse
      cases hparse
    | ok d =>
      obtain ⟨s, hok, hrel⟩ := configParseFile_of_tree hcalloc htree h
      exact ⟨s.heap, d.doc, hok, hrel.tree, hrel.laid, hrel.next, hrel.freed_eq⟩

/-- A call that fails has freed what it built. -/
theorem ParseCall.not_succeeds_spec (hc : ¬ c.Succeeds) (h : ConfigHeap) :
    ∃ h' e n l, configParseFile c h = some (h', .error e) ∧ h'.next = h.next + n ∧ h'.freed = h.freed ++ l ∧
      l.Perm (List.range' h.next n) := by
  cases hcalloc : c.calloc 0 with
  | false =>
    exact ⟨h, _, 0, [], configParseFile_of_calloc hcalloc h, rfl, (List.append_nil _).symm, List.Perm.refl _⟩
  | true =>
    cases htree : c.tree with
    | error p =>
      obtain ⟨h', l, herror, hnext, hfreed, hperm⟩ := configParseFile_of_error hcalloc htree h
      exact ⟨h', p.1, _, l, herror, hnext, hfreed, hperm⟩
    | ok d =>
      obtain ⟨s, hok, -⟩ := configParseFile_of_tree hcalloc htree .empty
      exact absurd ⟨s.heap, _, hok⟩ hc

end Parse

/-! ### One object -/

namespace ConfigState

variable {s s' : ConfigState} {c : ParseCall}

/-- `config_root` is NULL or the root of a tree none of whose nodes has been freed. -/
def RootLive (s : ConfigState) : Prop :=
  ∀ root, configRoot s.config = some root →
    ∃ d : ConfigDoc, d.IsTree ∧ d.Laid root s.heap ∧ ∀ i < d.length, root + i ∉ s.heap.freed

/-- `config_destroy` leaves every node that was ever built freed once. -/
def FreesOnce (s : ConfigState) : Prop :=
  ∃ h, configDestroy s.config s.heap = some h ∧ h.freed.Perm (List.range h.next)

/-- The nodes that were built are those of the tree and those that were freed. -/
def Whole (s : ConfigState) : Prop :=
  match s.config.root with
  | none => s.heap.freed.Perm (List.range s.heap.next)
  | some root => ∃ d : ConfigDoc, d.IsTree ∧ d.Laid root s.heap ∧ s.heap.next = root + d.length ∧
      s.heap.freed.Perm (List.range root)

theorem whole_init : Whole init := List.Perm.refl _

theorem Whole.rootLive (h : s.Whole) : s.RootLive := by
  intro root hroot
  have hroot' : s.config.root = some root := hroot
  unfold Whole at h
  rw [hroot'] at h
  obtain ⟨d, hd, hlaid, -, hfreed⟩ := h
  refine ⟨d, hd, hlaid, fun i _ hmem => ?_⟩
  have hlt := List.mem_range.mp (hfreed.mem_iff.mp hmem)
  omega

/-- The ranges of the nodes of two trees. -/
theorem perm_range_append {freed l : List ℕ} {a n : ℕ} (hfreed : freed.Perm (List.range a))
    (hl : l.Perm (List.range' a n)) : (freed ++ l).Perm (List.range (a + n)) := by
  rw [List.range_add, ← List.range'_eq_map_range]
  exact hfreed.append hl

/-- A tree that is destroyed is freed, with its root. -/
theorem Whole.destroy (h : s.Whole) :
    ∃ h', destroyRoot s.config.root s.heap = some h' ∧ h'.freed.Perm (List.range h'.next) ∧
      ∀ root, s.config.root = some root → root ∈ h'.freed := by
  unfold Whole at h
  cases hroot : s.config.root with
  | none =>
    rw [hroot] at h
    exact ⟨s.heap, rfl, h, by simp⟩
  | some root =>
    rw [hroot] at h
    obtain ⟨d, hd, hlaid, hnext, hfreed⟩ := h
    obtain ⟨h', l, hdestroy, hnext', hfreed', hperm⟩ := hlaid.nodeDestroy hd hnext.ge
    have hall : h'.freed.Perm (List.range h'.next) := by
      rw [hfreed', hnext', hnext]
      exact perm_range_append hfreed hperm
    refine ⟨h', hdestroy, hall, ?_⟩
    intro root' heq
    cases heq
    have hpos : 0 < d.length := hd.pos
    exact hall.mem_iff.mpr (List.mem_range.mpr (by omega))

/-- **A call that succeeds replaces the tree.** -/
theorem Whole.read_tree (h : s.Whole) (hc : c.Succeeds) :
    ∃ s', s.readFile c = some s' ∧ s'.Whole ∧ s'.config.root ≠ none := by
  obtain ⟨h₁, hdestroy, hfreed₁, -⟩ := h.destroy
  obtain ⟨h', d, hparse, hd, hlaid, hnext, hfreed⟩ := hc.spec h₁
  refine ⟨⟨h', { s.config with root := some h₁.next }⟩, ?_, ⟨d, hd, hlaid, hnext, ?_⟩, by simp⟩
  · rw [readFile, configReadFile, hdestroy, Option.bind_eq_bind, Option.bind_some, hparse]
    rfl
  · rw [hfreed]
    exact hfreed₁

/-- A call that fails: the heap, and the root that is left as it was. -/
theorem Whole.read_fails (h : s.Whole) (hc : ¬ c.Succeeds) :
    ∃ s', s.readFile c = some s' ∧ s'.config.root = s.config.root ∧
      s'.heap.freed.Perm (List.range s'.heap.next) ∧ ∀ root, s.config.root = some root →
        root ∈ s'.heap.freed := by
  obtain ⟨h₁, hdestroy, hfreed₁, hroot⟩ := h.destroy
  obtain ⟨h', e, n, l, hparse, hnext, hfreed, hperm⟩ := c.not_succeeds_spec hc h₁
  refine ⟨⟨h', { s.config with errmsg := some e }⟩, ?_, rfl, ?_, ?_⟩
  · rw [readFile, configReadFile, hdestroy, Option.bind_eq_bind, Option.bind_some, hparse]
    rfl
  · dsimp only
    rw [hfreed, hnext]
    exact perm_range_append hfreed₁ hperm
  · intro root hr
    dsimp only
    rw [hfreed]
    exact List.mem_append_left _ (hroot root hr)

theorem Whole.read_fails_empty (h : s.Whole) (hroot : s.config.root = none) (hc : ¬ c.Succeeds) :
    ∃ s', s.readFile c = some s' ∧ s'.Whole ∧ s'.config.root = none := by
  obtain ⟨s', hread, hroot', hfreed, -⟩ := h.read_fails hc
  rw [hroot] at hroot'
  refine ⟨s', hread, ?_, hroot'⟩
  unfold Whole
  rw [hroot']
  exact hfreed

/-- **A call that fails with a tree in place leaves a root that was freed.** -/
theorem Whole.read_fails_tree (h : s.Whole) (hroot : s.config.root ≠ none) (hc : ¬ c.Succeeds) :
    ∃ s', s.readFile c = some s' ∧ ¬ s'.RootLive := by
  obtain ⟨s', hread, hroot', -, hfreed⟩ := h.read_fails hc
  obtain ⟨root, hr⟩ := Option.ne_none_iff_exists'.mp hroot
  refine ⟨s', hread, fun hlive => ?_⟩
  obtain ⟨d, hd, -, hnot⟩ := hlive root (hroot'.trans hr)
  exact hnot 0 hd.pos (hfreed root hr)

theorem Whole.freesOnce (h : s.Whole) : s.FreesOnce := by
  obtain ⟨h', hdestroy, hfreed, -⟩ := h.destroy
  exact ⟨h', hdestroy, hfreed⟩

/-! ### A whole life -/

/-- The calls do not fault, the root is live after each of them, and `config_destroy` then leaves every node freed
once. -/
def Sound (s : ConfigState) (calls : List ParseCall) : Prop :=
  Lts.Always readFile RootLive s calls ∧ ∃ s', Lts.run readFile s calls = some s' ∧ s'.FreesOnce

theorem sound_cons {calls : List ParseCall} (hread : s.readFile c = some s') :
    s.Sound (c :: calls) ↔ s.RootLive ∧ s'.Sound calls := by
  unfold Sound
  rw [Lts.Always, Lts.run, hread, Option.bind_some]
  simp [and_assoc]

/-- With a tree in place every call has to succeed. -/
theorem Whole.sound_tree_iff {calls : List ParseCall} (h : s.Whole) (hroot : s.config.root ≠ none) :
    s.Sound calls ↔ ∀ c ∈ calls, c.Succeeds := by
  induction calls generalizing s with
  | nil => exact iff_of_true ⟨h.rootLive, s, rfl, h.freesOnce⟩ (by simp)
  | cons c calls ih =>
    rw [List.forall_mem_cons]
    by_cases hc : c.Succeeds
    · obtain ⟨s', hread, h', hroot'⟩ := h.read_tree hc
      rw [sound_cons hread, ih h' hroot', and_iff_right h.rootLive, and_iff_right hc]
    · obtain ⟨s', hread, hdead⟩ := h.read_fails_tree hroot hc
      rw [sound_cons hread]
      exact iff_of_false (fun hsound => hdead hsound.2.1.head) fun hall => hc hall.1

/-- Before the first tree calls may fail. -/
theorem Whole.sound_iff {calls : List ParseCall} (h : s.Whole) (hroot : s.config.root = none) :
    s.Sound calls ↔ calls.Pairwise fun a b => a.Succeeds → b.Succeeds := by
  induction calls generalizing s with
  | nil => exact iff_of_true ⟨h.rootLive, s, rfl, h.freesOnce⟩ List.Pairwise.nil
  | cons c calls ih =>
    rw [List.pairwise_cons]
    by_cases hc : c.Succeeds
    · obtain ⟨s', hread, h', hroot'⟩ := h.read_tree hc
      rw [sound_cons hread, h'.sound_tree_iff hroot', and_iff_right h.rootLive]
      constructor
      · intro hall
        exact ⟨fun b hb _ => hall b hb, List.pairwise_of_forall_mem_list fun a _ b hb _ => hall b hb⟩
      · rintro ⟨hall, -⟩ b hb
        exact hall b hb hc
    · obtain ⟨s', hread, h', hroot'⟩ := h.read_fails_empty hroot hc
      rw [sound_cons hread, ih h' hroot', and_iff_right h.rootLive]
      exact (and_iff_right fun b _ hsucc => absurd hsucc hc).symm

/-- **The life of a configuration object is sound exactly if no call fails after one that succeeded.** A tree of
any shape is destroyed without a fault, and each of its nodes is freed once. -/
theorem config_life_iff (calls : List ParseCall) :
    (ConfigState.init.Sound calls ↔ calls.Pairwise fun a b => a.Succeeds → b.Succeeds) ∧
      ∀ (d : ConfigDoc) (base : ℕ) (h : ConfigHeap), d.IsTree → d.Laid base h → base + d.length ≤ h.next →
        ∃ h' l, h.nodeDestroy base = some h' ∧ h'.freed = h.freed ++ l ∧
          l.Perm (List.range' base d.length) := by
  refine ⟨whole_init.sound_iff rfl, fun d base h hd hlaid hnext => ?_⟩
  obtain ⟨h', l, hdestroy, -, hfreed, hperm⟩ := hlaid.nodeDestroy hd hnext
  exact ⟨h', l, hdestroy, hfreed, hperm⟩

/-- A file with one item. -/
def goodCall : ParseCall where
  results := [.token ⟨.item, false, 0, [97], [49], 1, List.cons_ne_nil _ _⟩]

/-- A file with a syntax error in its second line. -/
def brokenCall : ParseCall where
  results := goodCall.results ++ [.syntaxError 2]

/-- After a good file and a broken one the root is a node that was freed. To read or to destroy the object once
more destroys it twice. -/
theorem not_sound_reload :
    ∃ s, Lts.run readFile .init [goodCall, brokenCall] = some s ∧ configRoot s.config = some 0 ∧
      s.heap.freed = [0, 1, 2, 3] ∧ ¬ s.RootLive ∧ s.readFile goodCall = none ∧
      configDestroy s.config s.heap = none := by
  refine ⟨_, rfl, rfl, rfl, ?_, rfl, rfl⟩
  intro hlive
  obtain ⟨d, hd, -, hnot⟩ := hlive 0 rfl
  exact hnot 0 hd.pos (by decide)

end ConfigState

end Spigeon
