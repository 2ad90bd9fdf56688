import Spigeon.Proof.Config
import Spigeon.Proof.Options

/-!
# What a configuration file sets

The setters write through the offset of their slot, as many bytes as their own type has. For
`port` these are two more than the field has, which the padding before `worker_num` takes.

* `serverSlots_layout`: no setter of the table writes into the field of another entry.
* `parse_node`: what an item does to the options.
* `load_sets_options`: a file that is loaded sets the fields it names to the values of the last items
  that name them, and nothing else.
-/

namespace Spigeon

open CInt CStr Memory

/-! ## What a setter writes -/

/-- The size of the type through which the setter writes. -/
def Setter.width : Setter → ℕ
  | .str | .usec | .mem => 8
  | .num => 4
  | .flag => 1

/-- What the setter computes from its argument, `none` if it rejects it. -/
def Setter.value (dup : List UInt8 → ℕ) (arg : List UInt8) : Setter → Option ℤ
  | .str => some (dup arg)
  | .num => some (atoi arg)
  | .flag => if caseEq arg (bytes "yes") then some 1 else if caseEq arg (bytes "no") then some 0 else none
  | .usec => some (timetoll arg).1
  | .mem => some (memtoll arg).1

def SlotType.width : SlotType → ℕ
  | .charPtr | .uint64 => 8
  | .uint16 => 2
  | .int32 => 4
  | .bool => 1

/-- The value of the type that a number is converted to. -/
def SlotType.convert (v : ℤ) : SlotType → ℤ
  | .charPtr | .uint64 => v % 2 ^ 64
  | .uint16 => v % 2 ^ 16
  | .int32 => toInt v
  | .bool => v % 2 ^ 8

variable {dup : List UInt8 → ℕ} {s t : Slot} {conf conf' : Mem}

theorem withArg_some {set : List UInt8 → ℕ → Mem → Mem × ℤ} {argc r : ℤ} {argv : List (List UInt8)} {offset : ℕ}
    (h : withArg set argc argv offset conf = some (conf', r)) :
    (conf' = conf ∧ r = configError) ∨
      ∃ arg, argv.head? = some arg ∧ set (cStr arg) offset conf = (conf', r) := by
  unfold withArg at h
  split_ifs at h with hargc
  · cases h
    exact Or.inl ⟨rfl, rfl⟩
  · obtain ⟨arg, harg, hset⟩ := Option.map_eq_some_iff.mp h
    exact Or.inr ⟨arg, harg, hset⟩

/-- A setter that accepts every argument. -/
theorem withArg_store {n : ℕ} {g : List UInt8 → ℕ} {argc r : ℤ} {argv : List (List UInt8)} {offset : ℕ}
    (h : withArg (fun arg offset conf => (store conf offset n (g arg), configOk)) argc argv offset conf =
      some (conf', r)) :
    (conf' = conf ∧ r = configError) ∨
      ∃ arg, argv.head? = some arg ∧ conf' = store conf offset n (g (cStr arg)) := by
  rcases withArg_some h with herr | ⟨arg, harg, hset⟩
  · exact Or.inl herr
  · cases hset
    exact Or.inr ⟨arg, harg, rfl⟩

theorem toSize_mod (v : ℤ) : (toSize v : ℤ) % 2 ^ 64 = v % 2 ^ 64 := by
  unfold toSize
  omega

/-- **What a setter does.** It rejects its arguments and writes nothing, or stores what it computes
from the first. -/
theorem Setter.run_cases {f : Setter} {argc r : ℤ} {argv : List (List UInt8)} {offset : ℕ}
    (h : f.run dup argc argv offset conf = some (conf', r)) :
    (conf' = conf ∧ r = configError) ∨ ∃ arg v x, argv.head? = some arg ∧ f.value dup (cStr arg) = some v ∧
      conf' = store conf offset f.width x ∧ (x : ℤ) % 2 ^ 64 = v % 2 ^ 64 := by
  cases f with
  | str =>
    rcases withArg_store (n := 8) (g := dup) h with herr | ⟨arg, harg, hconf⟩
    · exact Or.inl herr
    · exact Or.inr ⟨arg, _, _, harg, rfl, hconf, rfl⟩
  | num =>
    rcases withArg_store (n := 4) (g := fun arg => toSize (atoi arg)) h with herr | ⟨arg, harg, hconf⟩
    · exact Or.inl herr
    · exact Or.inr ⟨arg, _, _, harg, rfl, hconf, toSize_mod _⟩
  | usec =>
    rcases withArg_store (n := 8) (g := fun arg => toSize (timetoll arg).1) h with herr | ⟨arg, harg, hconf⟩
    · exact Or.inl herr
    · exact Or.inr ⟨arg, _, _, harg, rfl, hconf, toSize_mod _⟩
  | mem =>
    rcases withArg_store (n := 8) (g := fun arg => toSize (memtoll arg).1) h with herr | ⟨arg, harg, hconf⟩
    · exact Or.inl herr
    · exact Or.inr ⟨arg, _, _, harg, rfl, hconf, toSize_mod _⟩
  | flag =>
    unfold Setter.run confSetFlagSlot at h
    rcases withArg_some h with herr | ⟨arg, harg, hset⟩
    · exact Or.inl herr
    · by_cases hyes : caseEq (cStr arg) (bytes "yes")
      · rw [if_pos hyes] at hset
        cases hset
        exact Or.inr ⟨arg, 1, 1, harg, if_pos hyes, rfl, rfl⟩
      · by_cases hno : caseEq (cStr arg) (bytes "no")
        · rw [if_neg hyes, if_pos hno] at hset
          cases hset
          refine Or.inr ⟨arg, 0, 0, harg, ?_, rfl, rfl⟩
          rw [Setter.value, if_neg hyes, if_pos hno]
        · rw [if_neg hyes, if_neg hno] at hset
          cases hset
          exact Or.inl ⟨rfl, rfl⟩

/-! ## What a field holds -/

/-- A field holds the value of its bytes. -/
theorem SlotType.read_eq (type : SlotType) (conf : Mem) (a : ℕ) :
    type.read conf a = type.convert (load conf a type.width) := by
  have hlt := load_lt conf a type.width
  cases type with
  | int32 => rfl
  | charPtr | uint16 | bool | uint64 =>
    simp only [SlotType.width] at hlt
    simp only [SlotType.read, SlotType.convert, SlotType.width]
    omega

theorem SlotType.convert_congr {type : SlotType} {v w : ℤ} (h : v % 256 ^ type.width = w % 256 ^ type.width) :
    type.convert v = type.convert w := by
  cases type with
  | int32 =>
    have hmod : v % 2 ^ 32 = w % 2 ^ 32 := h
    unfold SlotType.convert toInt
    rw [hmod]
  | charPtr | uint16 | bool | uint64 => exact h

theorem read_store {type : SlotType} {n x offset : ℕ} {v : ℤ} (hn : type.width ≤ n)
    (hx : (x : ℤ) % 2 ^ 64 = v % 2 ^ 64) :
    type.read (store conf offset n x) offset = type.convert v := by
  rw [type.read_eq, load_store conf offset x hn]
  apply SlotType.convert_congr
  push_cast
  cases type <;> simp only [SlotType.width] <;> omega

theorem read_store_of_disjoint {type : SlotType} {a n x b : ℕ} (h : a + n ≤ b ∨ b + type.width ≤ a) :
    type.read (store conf a n x) b = type.read conf b := by
  rw [type.read_eq, type.read_eq, load_store_of_disjoint conf h]

/-! ## The table -/

/-- **No setter writes into another field**, and each writes all of its own. -/
theorem serverSlots_layout : ∀ s ∈ serverSlots, s.type.width ≤ s.setter.width ∧
    ∀ t ∈ serverSlots, s ≠ t → s.offset + s.setter.width ≤ t.offset ∨ t.offset + t.type.width ≤ s.offset := by
  decide

theorem serverSlots_names : ∀ s ∈ serverSlots, s.name ≠ [] ∧ ∀ t ∈ serverSlots, caseEq s.name t.name → s = t := by
  decide

/-- The fields of `GenericServerOptions` that the table does not name, `worker_factory_func` and
`ssl_open`, with their sizes. -/
def otherFields : List (ℕ × ℕ) := [(56, 8), (64, 4)]

theorem otherFields_layout : ∀ s ∈ serverSlots, ∀ f ∈ otherFields, s.offset + s.setter.width ≤ f.1 := by
  decide

/-- **A setter of the table leaves the other options as they are.** -/
theorem setter_frame (hs : s ∈ serverSlots) {argc r : ℤ} {argv : List (List UInt8)}
    (h : s.setter.run dup argc argv s.offset conf = some (conf', r)) :
    (∀ t ∈ serverSlots, t ≠ s → t.type.read conf' t.offset = t.type.read conf t.offset) ∧
      ∀ f ∈ otherFields, load conf' f.1 f.2 = load conf f.1 f.2 := by
  rcases Setter.run_cases h with ⟨rfl, -⟩ | ⟨arg, v, x, -, -, rfl, -⟩
  · exact ⟨fun t _ _ => rfl, fun f _ => rfl⟩
  · constructor
    · intro t ht hne
      exact read_store_of_disjoint ((serverSlots_layout s hs).2 t ht hne.symm)
    · intro f hf
      exact load_store_of_disjoint conf (Or.inl (otherFields_layout s hs f hf))

/-! ## One item -/

/-- The key of the item is the name of the field, ignoring case. -/
def ConfigNode.names (node : ConfigNode) (s : Slot) : Bool := node.key.any fun name => caseEq name s.name

def ConfigNode.known (node : ConfigNode) : Bool := serverSlots.any node.names

/-- The first argument of the item, as the setters read it. -/
def ConfigNode.arg (node : ConfigNode) : Option (List UInt8) :=
  (node.value.bind sdssplitargs).bind fun args => args.2.head?.map cStr

/-- The field has the value that its setter computes from the item. -/
def SetFrom (dup : List UInt8 → ℕ) (s : Slot) (node : ConfigNode) (conf : Mem) : Prop :=
  ∃ arg v, node.arg = some arg ∧ s.setter.value dup arg = some v ∧ s.type.read conf s.offset = s.type.convert v

/-- What one item does. -/
structure NodeSets (dup : List UInt8 → ℕ) (node : ConfigNode) (conf conf' : Mem) : Prop where
  named : ∀ s ∈ serverSlots, node.names s = true → SetFrom dup s node conf'
  others : ∀ s ∈ serverSlots, node.names s = false → s.type.read conf' s.offset = s.type.read conf s.offset
  unnamed : ∀ f ∈ otherFields, load conf' f.1 f.2 = load conf f.1 f.2
  unknown : node.known = false → conf' = conf

theorem caseEq_trans {a b c : List UInt8} (h : caseEq a b) (h' : caseEq a c) : caseEq b c := by
  unfold caseEq at h h' ⊢
  rw [decide_eq_true_eq] at h h' ⊢
  exact h.symm.trans h'

theorem findCommand_caseEq {C : Type} {table : List (Command C)} {name : List UInt8} {c : Command C}
    (h : findCommand table name = some c) : caseEq name c.name := by
  induction table with
  | nil => cases h
  | cons cp table ih =>
    unfold findCommand at h
    split_ifs at h with hend hname
    · cases h
      exact hname
    · exact ih h

/-- The command that is found is that of the slot named. -/
theorem findCommand_slot {name : List UInt8} {c : Command Mem}
    (h : findCommand (serverCmdTable dup) name = some c) :
    ∃ s ∈ serverSlots, c = s.command dup ∧ caseEq name s.name := by
  obtain ⟨s, hs, rfl⟩ := List.mem_map.mp (findCommand_mem h)
  exact ⟨s, hs, rfl, findCommand_caseEq h⟩

theorem findCommand_slot_none {name : List UInt8} (h : findCommand (serverCmdTable dup) name = none)
    (hs : s ∈ serverSlots) :
    caseEq name s.name = false := by
  have hall := findCommand_eq_none_iff.mp h
  have hmem : s.command dup ∈ commands (serverCmdTable dup) := by
    have hfull : commands (serverCmdTable dup) = serverCmdTable dup := by
      refine List.takeWhile_eq_self_iff.mpr ?_
      intro c hc
      obtain ⟨t, ht, rfl⟩ := List.mem_map.mp hc
      exact decide_eq_true (serverSlots_names t ht).1
    rw [hfull]
    exact List.mem_map_of_mem hs
  exact Bool.eq_false_iff.mpr (hall _ hmem)

/-- An item that names no field is passed over. -/
theorem parse_unknown_node {name line : List UInt8} {argc : ℤ} {argv : List (List UInt8)}
    (hsplit : sdssplitargs line = some (argc, argv)) (hfind : findCommand (serverCmdTable dup) name = none)
    (h : parseConf (serverCmdTable dup) (some name) (some line) conf = some (conf', configOk)) :
    NodeSets dup ⟨some name, some line⟩ conf conf' := by
  rw [parseConf_unknown conf hfind hsplit] at h
  obtain ⟨_, -, hres⟩ := Option.map_eq_some_iff.mp h
  cases hres
  refine ⟨?_, fun s _ _ => rfl, fun f _ => rfl, fun _ => rfl⟩
  intro s hs hname
  have hnamed : caseEq name s.name = true := hname
  rw [findCommand_slot_none hfind hs] at hnamed
  cases hnamed

/-- An item for a field runs the setter of that field. -/
theorem parse_slot_node {name line : List UInt8} {argc : ℤ} {argv : List (List UInt8)} {c : Command Mem}
    (hsplit : sdssplitargs line = some (argc, argv)) (hfind : findCommand (serverCmdTable dup) name = some c)
    (h : parseConf (serverCmdTable dup) (some name) (some line) conf = some (conf', configOk)) :
    NodeSets dup ⟨some name, some line⟩ conf conf' := by
  obtain ⟨s, hs, rfl, hname⟩ := findCommand_slot hfind
  -- no other entry has this name
  have honly : ∀ t ∈ serverSlots, caseEq name t.name → t = s := by
    intro t ht hcase
    exact ((serverSlots_names s hs).2 t ht (caseEq_trans hname hcase)).symm
  obtain ⟨r, hrun⟩ : ∃ r, s.setter.run dup argc argv s.offset conf = some r := by
    simp only [parseConf, hsplit, hfind, Option.bind_some] at h
    obtain ⟨r, hr, -⟩ := Option.bind_eq_some_iff.mp h
    exact ⟨r, hr⟩
  rw [parseConf_known hfind hsplit hrun] at h
  split_ifs at h with hrh
  · cases h
  · obtain ⟨_, -, hres⟩ := Option.map_eq_some_iff.mp h
    cases hres
    have hframe := setter_frame hs hrun
    refine ⟨?_, ?_, hframe.2, ?_⟩
    · intro t ht hnamed
      obtain rfl := honly t ht hnamed
      rcases Setter.run_cases hrun with ⟨-, herr⟩ | ⟨arg, v, x, harg, hv, hconf, hx⟩
      · exact absurd (not_not.mp hrh) (by rw [herr]; decide)
      · refine ⟨cStr arg, v, ?_, hv, ?_⟩
        · simp only [ConfigNode.arg, Option.bind_some, hsplit, harg, Option.map_some]
        · rw [hconf]
          exact read_store (serverSlots_layout t ht).1 hx
    · intro t ht hnot
      refine hframe.1 t ht ?_
      rintro rfl
      have hnamed : caseEq name t.name = false := hnot
      rw [hname] at hnamed
      cases hnamed
    · intro hunknown
      have hall := List.any_eq_false.mp hunknown
      exact absurd hname (hall s hs)

/-- **One item sets the field it names, and nothing else.** -/
theorem parse_node {node : ConfigNode}
    (h : parseConf (serverCmdTable dup) node.key node.value conf = some (conf', configOk)) :
    NodeSets dup node conf conf' := by
  obtain ⟨_ | name, _ | line⟩ := node
  · cases h
  · cases h
  · cases h
  · obtain ⟨argc, argv, hsplit⟩ : ∃ argc argv, sdssplitargs line = some (argc, argv) := by
      rcases sdssplitargs_cases line with ⟨-, argv, hargv⟩ | ⟨-, hfail⟩
      · exact ⟨_, argv, hargv⟩
      · exact ⟨_, _, hfail⟩
    cases hfind : findCommand (serverCmdTable dup) name with
    | none => exact parse_unknown_node hsplit hfind h
    | some c => exact parse_slot_node hsplit hfind h

/-! ## The file -/

/-- The last item that names the field. -/
def lastFor (s : Slot) (items : List ConfigNode) : Option ConfigNode :=
  (items.filter fun node => node.names s).getLast?

/-- What the items do together. -/
structure ItemsSet (dup : List UInt8 → ℕ) (items : List ConfigNode) (conf conf' : Mem) : Prop where
  named : ∀ s ∈ serverSlots, ∀ node, lastFor s items = some node → SetFrom dup s node conf'
  others : ∀ s ∈ serverSlots, lastFor s items = none → s.type.read conf' s.offset = s.type.read conf s.offset
  unnamed : ∀ f ∈ otherFields, load conf' f.1 f.2 = load conf f.1 f.2
  unknown : parseNodes (serverCmdTable dup) (items.filter ConfigNode.known) conf = some (conf', configOk)

theorem lastFor_cons_named {node : ConfigNode} (h : node.names s = true) (items : List ConfigNode) :
    lastFor s (node :: items) = some ((lastFor s items).getD node) := by
  have hfilter : (node :: items).filter (fun n => n.names s) = node :: items.filter fun n => n.names s :=
    List.filter_cons_of_pos h
  unfold lastFor
  rw [hfilter, List.getLast?_cons]

theorem lastFor_cons_other {node : ConfigNode} (h : node.names s = false) (items : List ConfigNode) :
    lastFor s (node :: items) = lastFor s items := by
  have hfilter : (node :: items).filter (fun n => n.names s) = items.filter fun n => n.names s :=
    List.filter_cons_of_neg (ne_true_of_eq_false h)
  unfold lastFor
  rw [hfilter]

theorem parseNodes_cons {C : Type} {table : List (Command C)} {node : ConfigNode} {items : List ConfigNode}
    {conf conf' : C} :
    parseNodes table (node :: items) conf = some (conf', configOk) ↔
      ∃ mid, parseConf table node.key node.value conf = some (mid, configOk) ∧
        parseNodes table items mid = some (conf', configOk) := by
  constructor
  · intro h
    obtain ⟨⟨mid, r⟩, hnode, hrest⟩ := Option.bind_eq_some_iff.mp h
    split_ifs at hrest with hr
    · cases hrest
    · obtain rfl : r = configOk := not_not.mp hr
      exact ⟨mid, hnode, hrest⟩
  · rintro ⟨mid, hnode, hrest⟩
    rw [parseNodes, hnode, Option.bind_some, if_neg (not_not.mpr rfl)]
    exact hrest

/-- The items before the last one that names a field do not matter for it. -/
theorem parse_nodes {items : List ConfigNode}
    (h : parseNodes (serverCmdTable dup) items conf = some (conf', configOk)) :
    ItemsSet dup items conf conf' := by
  induction items generalizing conf with
  | nil =>
    cases h
    refine ⟨?_, fun s _ _ => rfl, fun f _ => rfl, rfl⟩
    intro s _ node hnode
    cases hnode
  | cons node items ih =>
    obtain ⟨mid, hnode, hrest⟩ := parseNodes_cons.mp h
    have hone := parse_node hnode
    have hmany := ih hrest
    refine ⟨?_, ?_, fun f hf => (hmany.unnamed f hf).trans (hone.unnamed f hf), ?_⟩
    · intro s hs last hlast
      cases hname : node.names s with
      | false =>
        rw [lastFor_cons_other hname] at hlast
        exact hmany.named s hs last hlast
      | true =>
        rw [lastFor_cons_named hname] at hlast
        cases hrest : lastFor s items with
        | some later =>
          -- a later item writes over what this one sets
          rw [hrest] at hlast
          cases hlast
          exact hmany.named s hs later hrest
        | none =>
          -- this item is the last one, and those behind it leave the field
          rw [hrest] at hlast
          cases hlast
          obtain ⟨arg, v, harg, hv, hread⟩ := hone.named s hs hname
          exact ⟨arg, v, harg, hv, (hmany.others s hs hrest).trans hread⟩
    · intro s hs hlast
      cases hname : node.names s with
      | false =>
        rw [lastFor_cons_other hname] at hlast
        exact (hmany.others s hs hlast).trans (hone.others s hs hname)
      | true =>
        rw [lastFor_cons_named hname] at hlast
        cases hlast
    · cases hknown : node.known with
      | false =>
        rw [List.filter_cons_of_neg (ne_true_of_eq_false hknown), ← hone.unknown hknown]
        exact hmany.unknown
      | true =>
        rw [List.filter_cons_of_pos hknown]
        exact parseNodes_cons.mpr ⟨mid, hnode, hmany.unknown⟩

/-- **A configuration file sets exactly the options it names.** For every list of items with which
`load_conf_file` returns `CONFIG_OK`, each field has afterwards the value that its setter
computes from the last item with its name, and is unchanged if there is none. The items
with other keys could be left out, and no setter changes another option. -/
theorem load_sets_options {items : List ConfigNode}
    (h : loadConfFile (serverCmdTable dup) (some items) conf = some (conf', configOk)) :
    ItemsSet dup items conf conf' ∧
      ∀ s ∈ serverSlots, ∀ argc argv m m' r, s.setter.run dup argc argv s.offset m = some (m', r) →
        (∀ t ∈ serverSlots, t ≠ s → t.type.read m' t.offset = t.type.read m t.offset) ∧
          ∀ f ∈ otherFields, load m' f.1 f.2 = load m f.1 f.2 := by
  constructor
  · cases items with
    | nil => cases h
    | cons node items => exact parse_nodes h
  · intro s hs argc argv m m' r hrun
    exact setter_frame hs hrun

/-- The items `PORT 70000`, `foo bar`, `port 80`. -/
def portTwice : List ConfigNode :=
  [⟨some (bytes "PORT"), some (bytes "70000")⟩, ⟨some (bytes "foo"), some (bytes "bar")⟩,
    ⟨some (bytes "port"), some (bytes "80")⟩]

theorem load_sets_last_port :
    ∃ conf', loadConfFile (serverCmdTable fun _ => 0) (some portTwice) zeroOptions = some (conf', configOk) ∧
      SlotType.uint16.read conf' 8 = 80 ∧ SlotType.int32.read conf' 12 = 0 := by
  have hok : (loadConfFile (serverCmdTable fun _ => 0) (some portTwice) zeroOptions).map Prod.snd =
      some configOk := by
    decide +kernel
  obtain ⟨⟨conf', r⟩, hload, rfl⟩ := Option.map_eq_some_iff.mp hok
  obtain ⟨hset, -⟩ := load_sets_options hload
  refine ⟨conf', hload, ?_, ?_⟩
  · obtain ⟨arg, v, harg, hv, hread⟩ :=
      hset.named ⟨bytes "port", .num, 8, .uint16⟩ (by decide) ⟨some (bytes "port"), some (bytes "80")⟩ (by decide)
    have harg' : (⟨some (bytes "port"), some (bytes "80")⟩ : ConfigNode).arg = some (bytes "80") := by
      decide +kernel
    cases harg.symm.trans harg'
    cases hv
    rw [hread]
    decide
  · rw [hset.others ⟨bytes "worker_num", .num, 12, .int32⟩ (by decide) (by decide)]
    decide

end Spigeon
