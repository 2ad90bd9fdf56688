import Spigeon.Proof.Sds
import Spigeon.Spec.LogText

/-!
# Which records stay inside their block

Appends of text never leave the block and always keep a byte of it, so the pointer stands at the
total of what was appended or at the last byte, whichever comes first (`FilledTo`). A blank does
not keep a byte: at the last one it puts its terminator behind the block. So a record stays inside
exactly when everything up to its last blank fits.
-/

namespace Spigeon

open CInt CStr

/-- How far a `printf` moves the pointer when there is room. -/
def Printed.shown (p : Printed) : ℕ := if p.failed then 0 else p.text.length

/-- A block of `len` bytes after appends of `n` bytes in total. Before each append the pointer was in
the block, with at least a byte left. -/
structure FilledTo (len n : ℕ) (c : LogCursor) : Prop where
  length : c.block.length = len
  buf : c.buf = min n (len - 1)
  size : c.buf + c.size = len
  appends : ∀ a ∈ c.appends, a.1 + a.2 = len ∧ 1 ≤ a.2

section Cursor

variable {len n : ℕ} {c : LogCursor}

theorem filledTo_start {block : List UInt8} (h : block.length = len) :
    FilledTo len 0 (.start block) := by
  refine ⟨h, by simp [LogCursor.start], ?_, by simp [LogCursor.start]⟩
  simp only [LogCursor.start, h]
  omega

theorem FilledTo.mark (h : FilledTo len n c) (hlen : 1 ≤ len) : FilledTo len n c.mark := by
  refine ⟨h.length, h.buf, h.size, fun a ha => ?_⟩
  rcases List.mem_append.mp ha with ha | ha
  · exact h.appends a ha
  · obtain rfl := List.mem_singleton.mp ha
    have := h.buf
    have := h.size
    simp only
    omega

theorem FilledTo.advance (h : FilledTo len n c) {m : ℕ} (ret : ℤ)
    (hret : c.buf + ret = min m (len - 1)) : FilledTo len m (c.advance ret) := by
  refine ⟨h.length, hret, ?_, h.appends⟩
  have := h.size
  simp only [LogCursor.advance]
  omega

/-- A write inside the block changes nothing else. -/
theorem FilledTo.write (h : FilledTo len n c) {z : ℤ} (xs : List UInt8) (hz : 0 ≤ z)
    (hin : z + xs.length ≤ len) :
    ∃ b, c.write z xs = some { c with block := b } ∧ FilledTo len n { c with block := b } := by
  have hpoke : z.toNat + xs.length ≤ c.block.length := by
    rw [h.length]
    omega
  refine ⟨_, ?_, (poke_length (poke_some hpoke)).trans h.length, h.buf, h.size, h.appends⟩
  rw [LogCursor.write, if_neg (by omega), poke_some hpoke, Option.map_some]

/-- `_ADJUST_LOG_BUF_CURSOR` keeps a byte. -/
theorem FilledTo.adjust (h : FilledTo len n c) (hlen : 1 ≤ len) (p : Printed) :
    FilledTo len (n + p.shown) (c.adjust p.ret) := by
  have hbuf := h.buf
  have hsize := h.size
  unfold LogCursor.adjust Printed.ret Printed.shown
  by_cases hf : p.failed
  · rw [if_pos hf, if_pos hf, if_pos (by decide)]
    exact h.advance _ (by omega)
  · rw [if_neg hf, if_neg hf, if_neg (by omega)]
    split
    · exact h.advance _ (by omega)
    · exact h.advance _ (by omega)

theorem FilledTo.print (h : FilledTo len n c) (hlen : 1 ≤ len) (hmax : len < 2 ^ 64)
    (p : Printed) : ∃ c', c.print p = some c' ∧ FilledTo len (n + p.shown) c' := by
  have hbuf := h.buf
  have hsize := h.size
  have hn : toSize c.size = c.size.toNat := toSize_of_range (by omega) (by omega)
  have htext : (p.text.take (c.size.toNat - 1) ++ [0]).length ≤ c.size.toNat := by
    simp only [List.length_append, List.length_take, List.length_singleton]
    omega
  obtain ⟨b, hb, hfill⟩ := (h.mark hlen).write (z := c.buf)
    (p.text.take (c.size.toNat - 1) ++ [0]) (by omega) (by omega)
  refine ⟨_, ?_, hfill.adjust hlen p⟩
  unfold LogCursor.print
  simp only
  rw [hn, if_neg (by omega), hb, Option.map_some]

theorem FilledTo.copyItem (h : FilledTo len n c) (hlen : 1 ≤ len) (item : List UInt8) :
    ∃ c', c.copyItem item = some c' ∧ FilledTo len (n + item.length) c' := by
  have hbuf := h.buf
  have hsize := h.size
  obtain ⟨ret, hret⟩ : ∃ ret : ℤ, ret = if c.size > item.length then (item.length : ℤ)
      else if c.size > 0 then c.size - 1 else 0 := ⟨_, rfl⟩
  have hbound : 0 ≤ ret ∧ ret < c.size ∧ c.buf + ret = min (n + item.length) (len - 1) := by
    split_ifs at hret <;> omega
  have hitem : (item.take ret.toNat).length ≤ ret.toNat := List.length_take_le _ _
  obtain ⟨b, hb, hfill⟩ := (h.mark hlen).write (z := c.buf) (item.take ret.toNat)
    (by omega) (by omega)
  obtain ⟨b', hb', hfill'⟩ := hfill.write (z := c.buf + ret) [0] (by omega)
    (by simp only [List.length_singleton]; omega)
  refine ⟨_, ?_, hfill'.advance ret hbound.2.2⟩
  unfold LogCursor.copyItem
  simp only
  rw [← hret, hb, Option.bind_some]
  exact congrArg _ hb'

/-- A blank needs two bytes: one for itself, and one for the terminator. -/
theorem FilledTo.addBlankSpace (h : FilledTo len n c) (hlen : 1 ≤ len) :
    (n + 1 < len → ∃ c', c.addBlankSpace = some c' ∧ FilledTo len (n + 1) c') ∧
      (len ≤ n + 1 → c.addBlankSpace = none) := by
  have hbuf := h.buf
  have hsize := h.size
  have hpos : c.size > 0 := by omega
  obtain ⟨b, hb, hfill⟩ := (h.mark hlen).write (z := c.buf) [32] (by omega)
    (by simp only [List.length_singleton]; omega)
  unfold LogCursor.addBlankSpace
  rw [if_pos hpos, hb, Option.bind_some]
  constructor
  · intro hroom
    obtain ⟨b', hb', hfill'⟩ := hfill.write (z := c.buf + 1) [0] (by omega)
      (by simp only [List.length_singleton]; omega)
    exact ⟨_, congrArg _ hb', hfill'.advance 1 (show c.buf + 1 = _ by omega)⟩
  · intro hfull
    -- the pointer is at the last byte, and the terminator goes behind it
    have hout : ¬ ((c.buf + 1).toNat + [(0 : UInt8)].length ≤ b.length) := by
      have := hfill.length
      simp only [List.length_singleton] at this ⊢
      omega
    show (LogCursor.write _ (c.buf + 1) [0]).map _ = none
    rw [LogCursor.write, if_neg (by omega)]
    show Option.map _ (Option.map _ (poke b (c.buf + 1).toNat [0])) = none
    rw [poke, if_neg hout]
    rfl

end Cursor

/-! ### The parts of a record -/

/-- A part of `log_printf`: unless `ok` it leaves the block, and else it fills it to `n`. -/
def Fills (len n : ℕ) (ok : Prop) (r : Option LogCursor) : Prop :=
  (ok → ∃ c, r = some c ∧ FilledTo len n c) ∧ (¬ ok → r = none)

section Parts

variable {len n m : ℕ} {ok ok' : Prop} {r : Option LogCursor} {c : LogCursor}

theorem Fills.of_exists (h : ∃ c, r = some c ∧ FilledTo len n c) : Fills len n True r :=
  ⟨fun _ => h, fun hno => absurd trivial hno⟩

theorem Fills.congr (h : Fills len n ok r) (hok : ok ↔ ok') : Fills len n ok' r := by
  rw [← propext hok]
  exact h

/-- One part after another. -/
theorem Fills.bind (h : Fills len n ok r) {f : LogCursor → Option LogCursor}
    (hf : ∀ c, FilledTo len n c → Fills len m ok' (f c)) : Fills len m (ok ∧ ok') (r.bind f) := by
  by_cases hok : ok
  · obtain ⟨c, rfl, hc⟩ := h.1 hok
    exact (hf c hc).congr (by simp [hok])
  · rw [h.2 hok]
    exact ⟨fun hboth => absurd hboth.1 hok, fun _ => rfl⟩

end Parts

/-- What the file of the call adds. -/
def fileLength : Option (List UInt8) → ℕ
  | none => 0
  | some fileline => (Printed.ofText (bytes "file=")).shown + (Printed.ofText fileline).shown

/-- What the function adds, with its blank. -/
def functionLength : Option (List UInt8) → ℕ
  | none => 0
  | some function =>
    (Printed.ofText (bytes " function=")).shown + (Printed.ofText function).shown + 1

/-- What the pushed items add, each with its blank. -/
def itemsLength : List (List UInt8) → ℕ
  | [] => 0
  | item :: ld => item.length + 1 + itemsLength ld

/-- What stands before the message. -/
def LogCall.headLength (ld : List (List UInt8)) (a : LogCall) : ℕ :=
  (Printed.ofText a.headText).shown + fileLength a.fileline + functionLength a.function +
    itemsLength ld

/-- The last byte of the record becomes a newline, and nothing else changes. -/
theorem FilledTo.patchNewline {len n : ℕ} {c : LogCursor} (h : FilledTo len n c) (hlen : 1 ≤ len)
    (hbuf : 1 ≤ c.buf) :
    ∃ c', c.patchNewline = some c' ∧ c'.appends = c.appends ∧ c'.buf = c.buf ∧
      c'.block[(c'.buf - 1).toNat]? = some 10 := by
  have hat := h.buf
  have hin : (c.buf - 1).toNat < c.block.length := by
    rw [h.length]
    omega
  unfold LogCursor.patchNewline
  rw [if_neg (by omega), List.getElem?_eq_getElem hin]
  simp only
  by_cases hnl : c.block[(c.buf - 1).toNat] = 10
  · rw [if_pos hnl]
    exact ⟨c, rfl, rfl, rfl, by rw [List.getElem?_eq_getElem hin, hnl]⟩
  · rw [if_neg hnl, LogCursor.write, if_neg (by omega),
      poke_some (by simp only [List.length_singleton]; omega), Option.map_some]
    refine ⟨_, rfl, rfl, rfl, ?_⟩
    simp only
    rw [List.append_assoc, List.getElem?_append_right (by rw [List.length_take]; omega),
      List.length_take, Nat.min_eq_left (by omega), Nat.sub_self]
    rfl

section Record

variable {len n : ℕ} {c : LogCursor} (hlen : 1 ≤ len) (hmax : len < 2 ^ 64)
include hlen

theorem FilledTo.addBlankSpace_fills (h : FilledTo len n c) :
    Fills len (n + 1) (n + 1 < len) c.addBlankSpace :=
  ⟨(h.addBlankSpace hlen).1, fun hno => (h.addBlankSpace hlen).2 (by omega)⟩

theorem FilledTo.copyItems_fills (h : FilledTo len n c) (ld : List (List UInt8)) :
    Fills len (n + itemsLength ld) (ld = [] ∨ n + itemsLength ld < len) (c.copyItems ld) := by
  induction ld generalizing n c with
  | nil => exact (Fills.of_exists ⟨c, rfl, h⟩).congr (by simp)
  | cons item ld ih =>
    have hpart := (Fills.of_exists (h.copyItem hlen item)).bind fun c hc =>
      (hc.addBlankSpace_fills hlen).bind fun c hc => ih hc
    have htotal : n + item.length + 1 + itemsLength ld = n + itemsLength (item :: ld) := by
      simp only [itemsLength]
      omega
    rw [htotal] at hpart
    refine hpart.congr ?_
    -- the last blank is the one that decides
    rw [← htotal]
    cases ld with
    | nil => simp [itemsLength]
    | cons item' ld =>
      simp only [itemsLength, reduceCtorEq, false_or, true_and]
      omega

include hmax

theorem FilledTo.printFile_fills (h : FilledTo len n c) (fileline : Option (List UInt8)) :
    Fills len (n + fileLength fileline) True (c.printFile fileline) := by
  cases fileline with
  | none => exact .of_exists ⟨c, rfl, h⟩
  | some fileline =>
    have hpart := (Fills.of_exists (h.print hlen hmax (.ofText (bytes "file=")))).bind fun c hc =>
      Fills.of_exists (hc.print hlen hmax (.ofText fileline))
    rw [Nat.add_assoc] at hpart
    exact hpart.congr (by simp)

theorem FilledTo.printFunction_fills (h : FilledTo len n c) (function : Option (List UInt8)) :
    Fills len (n + functionLength function) (function = none ∨ n + functionLength function < len)
      (c.printFunction function) := by
  cases function with
  | none => exact (Fills.of_exists ⟨c, rfl, h⟩).congr (by simp)
  | some function =>
    have hpart := (Fills.of_exists (h.print hlen hmax (.ofText (bytes " function=")))).bind
      fun c hc => (Fills.of_exists (hc.print hlen hmax (.ofText function))).bind
        fun c hc => hc.addBlankSpace_fills hlen
    have htotal : n + (Printed.ofText (bytes " function=")).shown +
        (Printed.ofText function).shown + 1 = n + functionLength (some function) := by
      simp only [functionLength]
      omega
    rw [htotal] at hpart
    exact hpart.congr (by simp)

/-- What `log_printf` has before the label `user_msg`. -/
theorem FilledTo.printHead_fills (h : FilledTo len 0 c) (ld : List (List UInt8)) {a : LogCall}
    (ha : a.level ≠ .monitor) :
    Fills len (a.headLength ld) ((a.function = none ∧ ld = []) ∨ a.headLength ld < len)
      (c.printHead ld a) := by
  have hpart := (Fills.of_exists (h.print hlen hmax (.ofText a.headText))).bind fun c hc =>
    (hc.printFile_fills hlen hmax a.fileline).bind fun c hc =>
      (hc.printFunction_fills hlen hmax a.function).bind fun c hc => hc.copyItems_fills hlen ld
  rw [Nat.zero_add] at hpart
  unfold LogCursor.printHead
  rw [if_neg ha]
  refine hpart.congr ?_
  unfold LogCall.headLength
  generalize (Printed.ofText a.headText).shown + fileLength a.fileline = k
  cases a.function with
  | none =>
    simp [functionLength]
  | some function =>
    cases ld with
    | nil => simp [itemsLength]
    | cons item ld =>
      simp only [reduceCtorEq, false_or, false_and, true_and]
      omega

/-- The message and the ending always fit, and the last byte becomes a newline. -/
theorem FilledTo.printTail (h : FilledTo len n c) (hmin : 2 ≤ len) (a : LogCall) :
    ∃ c', c.printTail a = some c' ∧ (∀ x ∈ c'.appends, x.1 + x.2 = len ∧ 1 ≤ x.2) ∧
      1 ≤ c'.buf ∧ c'.buf ≤ len - 1 ∧ c'.block[(c'.buf - 1).toNat]? = some 10 := by
  obtain ⟨c₁, n₁, hrun₁, h₁⟩ : ∃ c₁ n₁, (if a.level = .monitor then some c
      else c.print (.ofText (bytes "msg="))) = some c₁ ∧ FilledTo len n₁ c₁ := by
    by_cases ha : a.level = .monitor
    · exact ⟨c, n, if_pos ha, h⟩
    · obtain ⟨c₁, hrun, h₁⟩ := h.print hlen hmax (.ofText (bytes "msg="))
      exact ⟨c₁, _, by rw [if_neg ha, hrun], h₁⟩
  obtain ⟨c₂, hrun₂, h₂⟩ := h₁.print hlen hmax a.message
  obtain ⟨c₃, hrun₃, h₃⟩ := h₂.print hlen hmax (.ofText (bytes "]\x1b[0m\n"))
  have hsix : (Printed.ofText (bytes "]\x1b[0m\n")).shown = 6 := by decide
  have hbuf := h₃.buf
  rw [hsix] at hbuf
  obtain ⟨c₄, hrun₄, happ, hbuf₄, hlast⟩ := h₃.patchNewline (by omega) (by omega)
  refine ⟨c₄, ?_, ?_, by omega, by omega, hlast⟩
  · unfold LogCursor.printTail
    rw [hrun₁, Option.bind_some, hrun₂, Option.bind_some, hrun₃, Option.bind_some, hrun₄]
  · rw [happ]
    exact h₃.appends

end Record

/-! ### The theorem -/

/-- All writes of `log_printf` are inside the block, before each append the pointer and the size add
up to its length with at least a byte left, and the record has a length below that of the block
and ends in a newline. -/
def StaysInside (r : Option LogCursor) : Prop :=
  ∃ c, r = some c ∧ (∀ x ∈ c.appends, x.1 + x.2 = logBufLenMax ∧ 1 ≤ x.2) ∧
    1 ≤ c.buf ∧ c.buf ≤ 4095 ∧ c.block[(c.buf - 1).toNat]? = some 10

section Call

variable {block : List UInt8} {ld : List (List UInt8)} {a : LogCall}

/-- Once the label `user_msg` is reached, nothing goes wrong. -/
theorem staysInside_of_head {n : ℕ} {c : LogCursor}
    (hhead : (LogCursor.start block).printHead ld a = some c) (hc : FilledTo logBufLenMax n c) :
    StaysInside (logPrintf block ld a) := by
  have hmax : logBufLenMax = 4096 := rfl
  obtain ⟨c', hrun, happ, hlow, hhigh, hlast⟩ := hc.printTail (by decide) (by decide) (by decide) a
  refine ⟨c', ?_, happ, hlow, by omega, hlast⟩
  rw [logPrintf, hhead, Option.bind_some, hrun]

/-- Without room for the last blank, the record leaves its block. -/
theorem logPrintf_of_full (hblock : block.length = logBufLenMax) (ha : a.level ≠ .monitor)
    (hfull : ¬ ((a.function = none ∧ ld = []) ∨ a.headLength ld < logBufLenMax)) :
    logPrintf block ld a = none := by
  have hhead := (filledTo_start hblock).printHead_fills (by decide) (by decide) ld ha
  rw [logPrintf, hhead.2 hfull, Option.bind_none]

end Call

/-- **The block of a log record.** For every chain of pushed items and every call, `log_printf`
stays inside its block exactly when the call is for the monitor, when it has neither a function nor
items, or when all that stands before the message takes at most 4095 bytes. -/
theorem log_printf_iff {block : List UInt8} (hblock : block.length = logBufLenMax)
    (ld : List (List UInt8)) (a : LogCall) :
    StaysInside (logPrintf block ld a) ↔
      a.level = .monitor ∨ (a.function = none ∧ ld = []) ∨ a.headLength ld ≤ 4095 := by
  have hmax : logBufLenMax = 4096 := rfl
  have hstart := filledTo_start hblock
  by_cases ha : a.level = .monitor
  · exact iff_of_true (staysInside_of_head (if_pos ha) hstart) (Or.inl ha)
  by_cases hok : (a.function = none ∧ ld = []) ∨ a.headLength ld < logBufLenMax
  · obtain ⟨c, hc, hfilled⟩ := (hstart.printHead_fills (by decide) (by decide) ld ha).1 hok
    refine iff_of_true (staysInside_of_head hc hfilled) (Or.inr ?_)
    exact hok.imp_right fun h => by omega
  · rw [logPrintf_of_full hblock ha hok]
    refine iff_of_false ?_ ?_
    · rintro ⟨c, hc, -⟩
      cases hc
    · rintro (h | h | h)
      · exact ha h
      · exact hok (Or.inl h)
      · exact hok (Or.inr (by omega))

/-- A call from a function, with a message. -/
def functionCall : LogCall :=
  ⟨.notice, some (bytes "a.cpp:7"), some (bytes "main"), bytes "NOTICE", bytes "0:00", bytes "echo", bytes "42",
    .ofText (bytes "ready")⟩

theorem log_printf_functionCall :
    StaysInside (logPrintf (List.replicate logBufLenMax 0) [bytes "k=v", bytes "n=1"] functionCall) :=
  (log_printf_iff List.length_replicate [bytes "k=v", bytes "n=1"] functionCall).mpr
    (Or.inr (Or.inr (by decide +kernel)))

/-! ### Pushed items -/

/-- A pushed item stays inside its node, which keeps a byte. -/
theorem pushedItem_length {block : List UInt8} (hblock : block.length = logItemLenMax)
    (key value : Printed) : ∃ item, pushedItem block key value = some item ∧
      item.length = min (key.shown + 1 + value.shown) 2047 := by
  have hmax : logItemLenMax = 2048 := rfl
  have hone : (Printed.ofText (bytes "=")).shown = 1 := by decide
  obtain ⟨c₁, hrun₁, h₁⟩ := (filledTo_start hblock).print (by decide) (by decide) key
  obtain ⟨c₂, hrun₂, h₂⟩ := h₁.print (by decide) (by decide) (.ofText (bytes "="))
  obtain ⟨c₃, hrun₃, h₃⟩ := h₂.print (by decide) (by decide) value
  refine ⟨c₃.block.take c₃.buf.toNat, ?_, ?_⟩
  · rw [pushedItem, hrun₁, Option.bind_some, hrun₂, Option.bind_some, hrun₃, Option.map_some]
  · have hbuf := h₃.buf
    rw [hone] at hbuf
    rw [List.length_take, h₃.length]
    omega

/-- A call without a file and a function, with an empty message. -/
def bareCall : LogCall := ⟨.notice, none, none, [], [], [], [], .ofText []⟩

/-- What the pushes below put into a node: one byte of key and 2045 of value. -/
def longValue : Printed := .ofText (List.replicate 2045 118)

/-- Two items of 2047 bytes are enough to leave the block. -/
theorem two_items_overflow :
    ∃ ld, ((logDataPush (List.replicate logItemLenMax 0) [[]] (.ofText [107]) longValue).bind
        fun ld => logDataPush (List.replicate logItemLenMax 0) ld (.ofText [107]) longValue) =
          some ld ∧
      logPrintf (List.replicate logBufLenMax 0) ld bareCall = none := by
  have hlong : longValue.shown = 2045 := by
    have hf : longValue.failed = false := by
      simp only [longValue, Printed.ofText, List.length_replicate]
      decide
    rw [Printed.shown, hf, if_neg Bool.false_ne_true]
    exact List.length_replicate
  have hkey : (Printed.ofText [107]).shown = 1 := by decide
  have hnode : (List.replicate logItemLenMax (0 : UInt8)).length = logItemLenMax :=
    List.length_replicate
  obtain ⟨item, hitem, hlen⟩ := pushedItem_length hnode (.ofText [107]) longValue
  rw [hlong, hkey] at hlen
  have hfirst : logDataPush (List.replicate logItemLenMax 0) [[]] (.ofText [107]) longValue =
      some [item] := by
    rw [logDataPush, hitem]
    rfl
  have hsecond : logDataPush (List.replicate logItemLenMax 0) [item] (.ofText [107]) longValue =
      some [item, item] := by
    have hpos : ([item].getLast?.any fun node => decide (node.length > 0)) = true := by
      show decide (item.length > 0) = true
      exact decide_eq_true (by omega)
    rw [logDataPush, hitem, Option.map_some, if_pos hpos]
    rfl
  refine ⟨[item, item], by rw [hfirst, Option.bind_some, hsecond], ?_⟩
  refine logPrintf_of_full List.length_replicate (by decide) ?_
  rintro (⟨-, h⟩ | h)
  · cases h
  · simp only [LogCall.headLength, itemsLength, logBufLenMax] at h
    omega

end Spigeon
