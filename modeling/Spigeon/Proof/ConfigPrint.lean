import Spigeon.Spec.ConfigValue
import Spigeon.Proof.ConfigLexer
import Spigeon.Proof.ConfigRef

/-!
# Printing a configuration

`print_tree` writes the lines of the values that the nodes are (`Laid.printTree`), and the scanner reads each
line as one token, which says what the line does (`results_line`). Each lemma about the scanner has the rest of
the file behind the line.
-/

namespace Spigeon

/-! ### The scanner on a line -/

/-- What the scanner returns from here on. -/
def Scanner.results (s : Scanner) : List LexerResult := lexLoop s.rest.length s

theorem Scanner.results_skip {s s' : Scanner} (h : s.step = some (s', none)) : s.results = s'.results := by
  have hshort := Scanner.step_shorter h
  obtain ⟨n, hn⟩ : ∃ n, s.rest.length = n + 1 := ⟨s.rest.length - 1, by dsimp only at hshort; omega⟩
  dsimp only at hshort
  rw [Scanner.results, hn, lexLoop, h]
  exact lexLoop_eq _ _ _ (by omega) le_rfl

theorem Scanner.results_token {s s' : Scanner} {t : LexerOutput} (h : s.step = some (s', some (.token t))) :
    s.results = .token t :: s'.results := by
  have hshort := Scanner.step_shorter h
  obtain ⟨n, hn⟩ : ∃ n, s.rest.length = n + 1 := ⟨s.rest.length - 1, by dsimp only at hshort; omega⟩
  dsimp only at hshort
  rw [Scanner.results, hn, lexLoop, h]
  exact congrArg _ (lexLoop_eq _ _ _ (by omega) le_rfl)

section Line

variable (g n lv : ℕ) (a : Bool) (rest : List UInt8)

theorem results_blanks (k : ℕ) :
    (⟨.initial, g, a, n, lv, List.replicate k 32 ++ rest⟩ : Scanner).results =
      (⟨.initial, g, a, n, lv, rest⟩ : Scanner).results := by
  induction k with
  | zero => rfl
  | succ k ih => exact (Scanner.results_skip rfl).trans ih

theorem results_dots (k : ℕ) :
    (⟨.group, g, a, n, lv, List.replicate k 46 ++ rest⟩ : Scanner).results =
      (⟨.group, g + k, a, n, lv, rest⟩ : Scanner).results := by
  induction k generalizing g with
  | zero => rfl
  | succ k ih =>
    rw [show g + (k + 1) = g + 1 + k by omega]
    exact (Scanner.results_skip rfl).trans (ih (g + 1))

variable {key : List UInt8} (hk : KeyText key)

include hk

theorem KeyText.takeWhile {c : UInt8} (hc : isKeyByte c = false) :
    (key ++ c :: rest).takeWhile isKeyByte = key := by
  rw [List.takeWhile_append_of_pos hk.2, List.takeWhile_cons_of_neg (by rw [hc]; decide), List.append_nil]

theorem KeyText.count_newline : key.count 10 = 0 :=
  List.count_eq_zero.2 fun h => absurd (hk.2 10 h) (by decide)

/-- The scanner behind a key. -/
theorem KeyText.behind (start start' : StartCond) :
    (⟨start, g, a, n, lv, key ++ rest⟩ : Scanner).behind key.length start' = ⟨start', g, a, n, lv, rest⟩ := by
  rw [Scanner.behind]
  dsimp only
  rw [List.take_left, List.drop_left, hk.count_newline]
  rfl

theorem step_initialKey :
    (⟨.initial, g, a, n, lv, key ++ 58 :: rest⟩ : Scanner).step =
      some (⟨.afterKey ⟨key, hk.1⟩ a, g, a, n, lv, 58 :: rest⟩, none) := by
  obtain ⟨b, k, rfl⟩ := List.exists_cons_of_ne_nil hk.1
  have hb := hk.2 b List.mem_cons_self
  have hne : ∀ c, isKeyByte c = false → b ≠ c := by
    rintro c hc rfl
    rw [hb] at hc
    cases hc
  have htake := hk.takeWhile rest (c := 58) rfl
  have hbehind := hk.behind g n lv a (58 :: rest) .initial (.afterKey ⟨b :: k, hk.1⟩ a)
  simp only [Scanner.step, Scanner.stepInitial, List.cons_append, if_neg (hne 91 rfl), if_neg (hne 64 rfl),
    if_neg (hne 35 rfl), dif_pos hb] at htake hbehind ⊢
  simp only [htake]
  rw [hbehind]

theorem step_groupKey :
    (⟨.group, g, a, n, lv, key ++ 93 :: rest⟩ : Scanner).step =
      some (⟨if a then .groupFinish else .group, g, a, n, g, 93 :: rest⟩,
        some (.token ⟨.group, a, g, key, [], n, hk.1⟩)) := by
  obtain ⟨b, k, rfl⟩ := List.exists_cons_of_ne_nil hk.1
  have hb := hk.2 b List.mem_cons_self
  have hne : ∀ c, isKeyByte c = false → b ≠ c := by
    rintro c hc rfl
    rw [hb] at hc
    cases hc
  have htake := hk.takeWhile rest (c := 93) rfl
  have hbehind := hk.behind g n lv a (93 :: rest) .group (if a then .groupFinish else .group)
  simp only [Scanner.step, Scanner.stepGroup, List.cons_append, if_neg (hne 93 rfl), if_neg (hne 46 rfl),
    if_neg (hne 64 rfl), dif_pos hb] at htake hbehind ⊢
  simp only [htake, hbehind]

/-- The line of a group: brackets, dots, and a key that may belong to an array. -/
theorem results_header (level : ℕ) (isArray : Bool) :
    (⟨.initial, g, false, n, lv,
        printHeader level (if isArray then 64 :: key else key) ++ rest⟩ : Scanner).results =
      .token ⟨.group, isArray, level, key, [], n, hk.1⟩ ::
        (⟨.initial, level, false, n + 1, level, rest⟩ : Scanner).results := by
  have htext : printHeader level (if isArray then 64 :: key else key) ++ rest =
      List.replicate (2 * level) 32 ++ (91 :: (List.replicate level 46 ++
        ((if isArray then 64 :: key else key) ++ 93 :: 10 :: rest))) := by
    unfold printHeader printIndent
    simp only [List.append_assoc, List.cons_append, List.nil_append]
  have hopen : (⟨.initial, g, false, n, lv, 91 :: (List.replicate level 46 ++
      ((if isArray then 64 :: key else key) ++ 93 :: 10 :: rest))⟩ : Scanner).results =
      (⟨.group, level, false, n, lv, (if isArray then 64 :: key else key) ++ 93 :: 10 ::
        rest⟩ : Scanner).results := by
    have hdots := results_dots 0 n lv false ((if isArray then 64 :: key else key) ++ 93 :: 10 :: rest) level
    rw [Nat.zero_add] at hdots
    exact (Scanner.results_skip rfl).trans hdots
  have hname : (⟨.group, level, false, n, lv, (if isArray then 64 :: key else key) ++ 93 :: 10 :: rest⟩ :
      Scanner).results = (⟨.group, level, isArray, n, lv, key ++ 93 :: 10 :: rest⟩ : Scanner).results := by
    cases isArray with
    | false => rfl
    | true => exact Scanner.results_skip rfl
  -- behind the key only the bracket and the newline are left
  have hclose : (⟨if isArray then .groupFinish else .group, level, isArray, n, level, 93 :: 10 :: rest⟩ :
      Scanner).results = (⟨.initial, level, false, n + 1, level, rest⟩ : Scanner).results := by
    cases isArray <;> exact (Scanner.results_skip rfl).trans (Scanner.results_skip rfl)
  rw [htext, results_blanks, hopen, hname,
    Scanner.results_token (step_groupKey level n lv isArray (10 :: rest) hk), hclose]

omit hk in
/-- The scanner on a value that is not empty. -/
theorem step_value (key : LexKey) {b : UInt8} {v : List UInt8} (hv : ValueText (b :: v)) :
    (⟨.value key a, g, false, n, lv, (b :: v) ++ 10 :: rest⟩ : Scanner).step =
      some (⟨.comment, g, false, n, lv, 10 :: rest⟩,
        some (.token ⟨.item, a, lv, key.text, b :: v, n, key.ne_nil⟩)) := by
  obtain ⟨hbytes, hhead⟩ := hv
  obtain ⟨h34, h9, h32⟩ := hhead b rfl
  obtain ⟨h35, h10, -⟩ := hbytes b List.mem_cons_self
  have htake : (v ++ 10 :: rest).takeWhile (fun c => decide (c ≠ 35 ∧ c ≠ 10)) = v := by
    rw [List.takeWhile_append_of_pos, List.takeWhile_cons_of_neg (by decide), List.append_nil]
    intro c hc
    obtain ⟨h35', h10', -⟩ := hbytes c (List.mem_cons_of_mem _ hc)
    exact decide_eq_true ⟨h35', h10'⟩
  have hcount : (b :: v).count 10 = 0 :=
    List.count_eq_zero.2 fun h => (hbytes 10 h).2.1 rfl
  have hbehind :
      (⟨.value key a, g, false, n, lv, (b :: v) ++ 10 :: rest⟩ : Scanner).behind (b :: v).length .comment =
        ⟨.comment, g, false, n, lv, 10 :: rest⟩ := by
    rw [Scanner.behind]
    dsimp only
    rw [List.take_left, List.drop_left, hcount]
    rfl
  simp only [Scanner.step, Scanner.stepValue, List.cons_append, if_neg h34, if_neg h10, if_neg h35,
    if_neg (not_or.2 ⟨h32, h9⟩), htake, Scanner.item] at hbehind ⊢
  rw [hbehind]

/-- The line of an item. An empty value is returned with the number of the next line. -/
theorem results_item (level : ℕ) (isArray : Bool) {v : List UInt8} (hv : ValueText v) :
    (⟨.initial, g, false, n, lv,
        printItem level (if isArray then 64 :: key else key) v ++ rest⟩ : Scanner).results =
      .token ⟨.item, isArray, lv, key, v, if v = [] then n + 1 else n, hk.1⟩ ::
        (⟨.initial, g, false, n + 1, lv, rest⟩ : Scanner).results := by
  have htext : printItem level (if isArray then 64 :: key else key) v ++ rest =
      List.replicate (2 * level) 32 ++ ((if isArray then 64 :: key else key) ++ 58 :: (v ++ 10 :: rest)) := by
    unfold printItem printIndent
    simp only [List.append_assoc, List.cons_append, List.nil_append]
  have hname : (⟨.initial, g, false, n, lv, (if isArray then 64 :: key else key) ++ 58 :: (v ++ 10 :: rest)⟩ :
      Scanner).results = (⟨.initial, g, isArray, n, lv, key ++ 58 :: (v ++ 10 :: rest)⟩ : Scanner).results := by
    cases isArray with
    | false => rfl
    | true => exact Scanner.results_skip rfl
  have hcolon : (⟨.afterKey ⟨key, hk.1⟩ isArray, g, isArray, n, lv, 58 :: (v ++ 10 :: rest)⟩ : Scanner).results =
      (⟨.value ⟨key, hk.1⟩ isArray, g, false, n, lv, v ++ 10 :: rest⟩ : Scanner).results :=
    Scanner.results_skip rfl
  rw [htext, results_blanks, hname, Scanner.results_skip (step_initialKey g n lv isArray _ hk), hcolon]
  cases v with
  | nil => exact Scanner.results_token rfl
  | cons b v =>
    rw [Scanner.results_token (step_value g n lv isArray rest ⟨key, hk.1⟩ hv), if_neg (List.cons_ne_nil b v)]
    exact congrArg _ (Scanner.results_skip rfl)

end Line

/-- A line that the scanner reads as it was written. -/
structure LineText (l : ConfigLine) : Prop where
  key : KeyText l.key
  value : ValueText l.value
  header : l.type = .group → l.value = []

/-- **A line is read as one token, which says what the line does.** -/
theorem results_line {l : ConfigLine} (hl : LineText l) (g n lv : ℕ) (rest : List UInt8) :
    ∃ t g' lv', t.Says l ∧ (⟨.initial, g, false, n, lv, l.text ++ rest⟩ : Scanner).results =
      .token t :: (⟨.initial, g', false, n + 1, lv', rest⟩ : Scanner).results := by
  unfold ConfigLine.text
  cases htype : l.type with
  | group =>
    refine ⟨⟨.group, l.isArray, l.level, l.key, [], n, hl.key.1⟩, l.level, l.level,
      ⟨htype.symm, rfl, rfl, (hl.header htype).symm, fun _ => rfl⟩, ?_⟩
    exact results_header g n lv rest hl.key l.level l.isArray
  | item =>
    refine ⟨⟨.item, l.isArray, lv, l.key, l.value, if l.value = [] then n + 1 else n, hl.key.1⟩, g, lv,
      ⟨htype.symm, rfl, rfl, rfl, fun h => by cases h⟩, ?_⟩
    exact results_item g n lv rest hl.key l.level l.isArray hl.value

theorem results_lines {ls : List ConfigLine} (hls : ∀ l ∈ ls, LineText l) (g n lv : ℕ) :
    ∃ ts, List.Forall₂ LexerOutput.Says ts ls ∧
      (⟨.initial, g, false, n, lv, ls.flatMap ConfigLine.text⟩ : Scanner).results = ts.map .token := by
  induction ls generalizing g n lv with
  | nil => exact ⟨[], .nil, rfl⟩
  | cons l ls ih =>
    obtain ⟨t, g', lv', hsays, hline⟩ :=
      results_line (hls l List.mem_cons_self) g n lv (ls.flatMap ConfigLine.text)
    obtain ⟨ts, hts, hrest⟩ := ih (fun k hk => hls k (List.mem_cons_of_mem _ hk)) g' (n + 1) lv'
    exact ⟨t :: ts, .cons hsays hts, by rw [List.flatMap_cons, hline, hrest, List.map_cons]⟩

/-- **The tokens of written lines.** -/
theorem lexFile_lines {ls : List ConfigLine} (hls : ∀ l ∈ ls, LineText l) :
    ∃ ts, List.Forall₂ LexerOutput.Says ts ls ∧ lexFile (ls.flatMap ConfigLine.text) = ts.map .token :=
  results_lines hls 0 1 0

/-! ### The lines of a value -/

theorem lineText_of_writable {inArray closed closed' : Bool} {vs : List ConfigValue}
    (h : Writable inArray closed vs closed') {array : Option (List UInt8)} (hsome : array.isSome = inArray)
    (harray : ∀ key ∈ array, KeyText key) (level : ℕ) :
    ∀ l ∈ ConfigValue.linesAll level array vs, LineText l := by
  have hname : ∀ {inArray : Bool} {array : Option (List UInt8)} {key : List UInt8}, array.isSome = inArray →
      (∀ key ∈ array, KeyText key) → (if inArray then key = [] else KeyText key) → KeyText (array.getD key) := by
    intro inArray array key hsome harray hkey
    cases array with
    | none =>
      subst hsome
      exact hkey
    | some k => exact harray k rfl
  induction h generalizing array level with
  | nil => intro l hl; simp [ConfigValue.linesAll] at hl
  | item hkey hvalue _ ih =>
    intro l hl
    rw [ConfigValue.linesAll, ConfigValue.lines, List.singleton_append, List.mem_cons] at hl
    rcases hl with rfl | hl
    · exact ⟨hname hsome harray hkey, hvalue, fun h => by cases h⟩
    · exact ih hsome harray level l hl
  | group hkey _ _ _ ihchildren ih =>
    intro l hl
    rw [ConfigValue.linesAll, ConfigValue.lines, List.cons_append, List.mem_cons, List.mem_append] at hl
    rcases hl with rfl | hl | hl
    · exact ⟨hname hsome harray hkey, ⟨fun b hb => by simp at hb, fun b hb => by simp at hb⟩, fun _ => rfl⟩
    · exact ihchildren rfl (fun k hk => by simp at hk) _ l hl
    · exact ih hsome harray level l hl
  | array hkey _ _ _ ihelements ih =>
    intro l hl
    rw [ConfigValue.linesAll, ConfigValue.lines, List.mem_append] at hl
    rcases hl with hl | hl
    · refine ihelements rfl (fun k hk => ?_) _ l hl
      cases hk
      exact hkey
    · exact ih hsome harray level l hl

/-! ### Printing a tree -/

theorem KeyText.cStr {key : List UInt8} (hk : KeyText key) : CStr.cStr key = key := by
  refine CStr.cStr_eq_self fun hzero => ?_
  have hbyte := hk.2 0 hzero
  cases hbyte

theorem ValueText.cStr {value : List UInt8} (hv : ValueText value) : CStr.cStr value = value :=
  CStr.cStr_eq_self fun hzero => (hv.1 0 hzero).2.2 rfl

/-- The array whose elements are the children of the entry. -/
def ConfigEntry.arrayKey (e : ConfigEntry) : Option (List UInt8) := if e.type = .array then e.key else none

theorem printName_eq (node c : ConfigTreeNode) {e : ConfigEntry} {key : List UInt8} (htype : node.type = e.type)
    (hkey : node.key = e.key) (hnamed : e.type = .array → e.key.isSome) (hc : c.key = some key)
    (hk : KeyText (e.arrayKey.getD key)) :
    printName node c = some (if e.arrayKey.isSome then 64 :: e.arrayKey.getD key else e.arrayKey.getD key) := by
  unfold ConfigEntry.arrayKey at hk ⊢
  rw [printName, htype, hkey]
  split
  next harray =>
    obtain ⟨k, hsome⟩ := Option.isSome_iff_exists.mp (hnamed harray)
    rw [if_pos harray, hsome] at hk
    have hk' : KeyText k := hk
    rw [hsome, Option.map_some, hk'.cStr]
    rfl
  next harray =>
    rw [if_neg harray] at hk
    have hk' : KeyText key := hk
    rw [hc, Option.map_some, hk'.cStr]
    rfl

namespace ConfigDoc

variable {d : ConfigDoc} {base : ℕ} {h : ConfigHeap}

/-- The heap node of a child, with the siblings behind it. -/
theorem Laid.child_node (hlaid : d.Laid base h) {p i : ℕ} {pre is : List ℕ} (hkids : d.kids p = pre ++ i :: is) :
    ∃ e, d[i]? = some e ∧ d.typeOf i = some e.type ∧ d.keyOf i = e.key ∧ d.par i = some p ∧
      h.node (base + i) = some (d.nodeAt base i e) ∧
      (d.nodeAt base i e).nextSibling = is.head?.map (base + ·) := by
  have hpar : d.par i = some p := by
    refine mem_kids.mp ?_
    rw [hkids]
    exact List.mem_append_right _ List.mem_cons_self
  obtain ⟨e, he, hnode⟩ := hlaid.node (lt_length_of_par hpar)
  have hafter : d.after i = is := Forest.after_of_split hpar hkids
  exact ⟨e, he, by rw [typeOf, he, Option.map_some], by rw [keyOf, he, Option.bind_some], hpar, hnode,
    by rw [nodeAt, hafter]⟩

/-- **`print_tree` writes the lines of what the children are.** Children and later siblings have higher numbers,
so the fuel is enough. -/
theorem Laid.printFrom (hlaid : d.Laid base h) (htree : d.IsTree) {fuel level p : ℕ} {ep : ConfigEntry}
    (hnamed : ep.type = .array → ep.key.isSome) {vs : List ConfigValue} {pre is : List ℕ}
    (hkids : d.kids p = pre ++ is) (hfuel : ∀ i ∈ is, d.length ≤ fuel + i) (hholds : d.HoldsAll is vs)
    (hlines : ∀ l ∈ ConfigValue.linesAll level ep.arrayKey vs, LineText l) :
    h.printFrom fuel (d.nodeAt base p ep) level (is.head?.map (base + ·)) =
      some ((ConfigValue.linesAll level ep.arrayKey vs).flatMap ConfigLine.text) := by
  induction fuel generalizing level p ep vs pre is with
  | zero =>
    cases is with
    | nil =>
      cases vs with
      | nil => rfl
      | cons v vs => exact hholds.elim
    | cons i is =>
      have hi : d.par i = some p := by
        refine mem_kids.mp ?_
        rw [hkids]
        exact List.mem_append_right _ List.mem_cons_self
      have hlt := lt_length_of_par hi
      have hle := hfuel i List.mem_cons_self
      omega
  | succ fuel ih =>
    cases is with
    | nil =>
      cases vs with
      | nil => rfl
      | cons v vs => exact hholds.elim
    | cons i is =>
      cases vs with
      | nil => exact hholds.elim
      | cons v vs =>
        obtain ⟨hv, hvs⟩ := hholds
        obtain ⟨e, he, htype, hkey, hpar, hnode, hnext⟩ := hlaid.child_node hkids
        rw [ConfigValue.linesAll] at hlines ⊢
        have hsorted := Forest.kids_sorted d.par d.length p
        have hrest : h.printFrom fuel (d.nodeAt base p ep) level (is.head?.map (base + ·)) =
            some ((ConfigValue.linesAll level ep.arrayKey vs).flatMap ConfigLine.text) := by
          refine ih hnamed (hkids.trans (List.append_cons pre i is)) (fun j hj => ?_) hvs fun l hl =>
            hlines l (List.mem_append_right _ hl)
          -- a later sibling has a higher number
          rw [show Forest.kids d.par d.length p = pre ++ i :: is from hkids] at hsorted
          have hlt := (List.pairwise_cons.1 (List.pairwise_append.1 hsorted).2.1).1 j hj
          have hle := hfuel i List.mem_cons_self
          omega
        have hbelow : ∀ j ∈ d.kids i, d.length ≤ fuel + j := by
          intro j hj
          have hlt := htree.lt (mem_kids.mp hj)
          have hle := hfuel i List.mem_cons_self
          omega
        rw [List.head?_cons, Option.map_some, ConfigHeap.printFrom, hnode]
        simp only [Option.bind_eq_bind, Option.bind_some, hnext, hrest]
        cases v with
        | item key value =>
          obtain ⟨hitem, hkey', hvalue, -⟩ := hv
          have hline := hlines ⟨.item, ep.arrayKey.isSome, level, ep.arrayKey.getD key, value⟩
            (List.mem_append_left _ List.mem_cons_self)
          have hname := printName_eq (d.nodeAt base p ep) (d.nodeAt base i e) rfl rfl hnamed
            (hkey.symm.trans hkey') hline.key
          have hval : (d.nodeAt base i e).value = some value := by
            rw [he, Option.bind_some] at hvalue; exact hvalue
          have hty : (d.nodeAt base i e).type = .item := Option.some.inj (htype.symm.trans hitem)
          simp only [hty, hname, hval, Option.bind_some, hline.value.cStr]
          rw [ConfigValue.lines, List.singleton_append, List.flatMap_cons]
          rfl
        | group key children =>
          obtain ⟨hgroup, hkey', hchildren⟩ := hv
          have hline := hlines ⟨.group, ep.arrayKey.isSome, level, ep.arrayKey.getD key, []⟩
            (List.mem_append_left _ List.mem_cons_self)
          have hname := printName_eq (d.nodeAt base p ep) (d.nodeAt base i e) rfl rfl hnamed
            (hkey.symm.trans hkey') hline.key
          have hty : (d.nodeAt base i e).type = .group := Option.some.inj (htype.symm.trans hgroup)
          have hty' : e.type = .group := hty
          have hnone : e.arrayKey = none := by rw [ConfigEntry.arrayKey, hty']; rfl
          have hinner : h.printFrom fuel (d.nodeAt base i e) (level + 1) (d.nodeAt base i e).firstChild =
              some ((ConfigValue.linesAll (level + 1) none children).flatMap ConfigLine.text) := by
            rw [← hnone]
            refine ih (fun harray => by rw [hty'] at harray; cases harray)
              (List.nil_append _).symm hbelow hchildren ?_
            rw [hnone]
            exact fun l hl => hlines l (List.mem_append_left _ (List.mem_cons_of_mem _ hl))
          simp only [hty, hname, hinner, Option.bind_some]
          rw [ConfigValue.lines, List.cons_append, List.flatMap_cons, List.flatMap_append, List.append_assoc]
          rfl
        | array key elements =>
          obtain ⟨harray, hkey', helements⟩ := hv
          have hty : (d.nodeAt base i e).type = .array := Option.some.inj (htype.symm.trans harray)
          have hty' : e.type = .array := hty
          have hsome : e.key = some key := hkey.symm.trans hkey'
          have hname : e.arrayKey = some key := by rw [ConfigEntry.arrayKey, hty', if_pos rfl, hsome]
          have hinner : h.printFrom fuel (d.nodeAt base i e) level (d.nodeAt base i e).firstChild =
              some ((ConfigValue.linesAll level (some key) elements).flatMap ConfigLine.text) := by
            rw [← hname]
            refine ih (fun _ => by rw [hsome]; rfl) (List.nil_append _).symm hbelow helements ?_
            rw [hname]
            exact fun l hl => hlines l (List.mem_append_left _ hl)
          simp only [hty, hinner, Option.bind_some]
          rw [ConfigValue.lines, List.flatMap_append]

theorem Laid.printTree (hlaid : d.Laid base h) (htree : d.IsTree) (hfuel : d.length ≤ h.next)
    (hroot : d.typeOf 0 = some .group) {vs : List ConfigValue} (hholds : d.IsForest vs)
    (hlines : ∀ l ∈ ConfigValue.linesAll 0 none vs, LineText l) :
    printTree h base 0 = some ((ConfigValue.linesAll 0 none vs).flatMap ConfigLine.text) := by
  obtain ⟨e, he, hnode⟩ := hlaid.node htree.pos
  have htype : e.type = .group := by
    rw [typeOf, he, Option.map_some] at hroot
    exact Option.some.inj hroot
  have hnone : e.arrayKey = none := by rw [ConfigEntry.arrayKey, htype]; rfl
  rw [Nat.add_zero] at hnode
  rw [Spigeon.printTree, hnode]
  have hprint : h.printFrom h.next (d.nodeAt base 0 e) 0 ((d.kids 0).head?.map (base + ·)) =
      some ((ConfigValue.linesAll 0 e.arrayKey vs).flatMap ConfigLine.text) :=
    hlaid.printFrom htree (fun harray => by rw [htype] at harray; cases harray)
      (List.nil_append (d.kids 0)).symm (fun i _ => hfuel.trans (Nat.le_add_right _ i)) hholds (by rwa [hnone])
  rw [hnone] at hprint
  exact hprint

end ConfigDoc

end Spigeon
