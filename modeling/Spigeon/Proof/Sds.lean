import Spigeon.Spec.Sds

/-!
# The string operations on well-formed strings

`SdsOK` is what every operation keeps: the two `int` fields are not negative and
together with the terminator they account for the whole block. Under it, and with
sizes small enough for the header's `int` fields, the operations are the list
operations they are meant to be.

* `makeRoom_ok`: `sdsMakeRoomFor` keeps the characters and reserves the room.
* `incr_ok`: `sdsIncrLen` makes the next bytes of the block part of the string. Bytes stored behind
  the string are appended to it in this way (`append_ok`), bytes stored at the start of the block
  overwrite it (`overwrite_ok`).
* `range_ok`: `sdsrange s k (-1)` drops the first `k` characters; `range_keeps` is about any start.
-/

namespace Spigeon

open CInt

/-- A well-formed string: header and block agree, and fit `int`. -/
structure SdsOK (s : Sds) : Prop where
  len : 0 ≤ s.len
  free : 0 ≤ s.free
  block : (s.buf.length : ℤ) = s.len + s.free + 1
  fits : s.len + s.free < 2 ^ 31

theorem sdsempty_ok : SdsOK sdsempty := ⟨by decide, by decide, by decide, by decide⟩

theorem SdsOK.sdslen_eq {s : Sds} (h : SdsOK s) : (sdslen s : ℤ) = s.len := by
  have := h.len; have := h.free; have := h.fits
  unfold sdslen; rw [toSize_of_range h.len (by omega)]; omega

theorem SdsOK.sdsavail_eq {s : Sds} (h : SdsOK s) : (sdsavail s : ℤ) = s.free := by
  have := h.len; have := h.free; have := h.fits
  unfold sdsavail; rw [toSize_of_range h.free (by omega)]; omega

theorem SdsOK.length_content {s : Sds} (h : SdsOK s) : s.content.length = sdslen s := by
  have := h.sdslen_eq; have := h.block; have := h.free
  unfold Sds.content; rw [List.length_take]; omega

theorem zrealloc_length (fill : ℕ → UInt8) (b : List UInt8) (n : ℕ) :
    (zrealloc fill b n).length = n := by
  unfold zrealloc; simp; omega

theorem zrealloc_take (fill : ℕ → UInt8) {b : List UInt8} {n k : ℕ} (hk : k ≤ b.length)
    (hn : b.length ≤ n) : (zrealloc fill b n).take k = b.take k := by
  unfold zrealloc
  rw [List.take_of_length_le hn, List.take_append_of_le_length hk]

/-- Both growth rules leave at least the room asked for, within `int`. -/
theorem newlen_bound {len n : ℕ} (h : len + n + sdsMaxPrealloc < 2 ^ 31) :
    len + n ≤ sdsNewlen len n ∧ sdsNewlen len n < 2 ^ 31 := by
  have hp : sdsMaxPrealloc = 1024 * 1024 := rfl
  unfold sdsNewlen
  by_cases hc : (len + n) % 2 ^ 64 < sdsMaxPrealloc
  · simp only [if_pos hc]; omega
  · simp only [if_neg hc]; omega

/-- **`sdsMakeRoomFor` reserves the room and keeps the string.** -/
theorem makeRoom_ok (fill : ℕ → UInt8) {s : Sds} (h : SdsOK s) {n : ℕ}
    (hn : n ≤ sdsavail s ∨ sdslen s + n + sdsMaxPrealloc < 2 ^ 31) :
    SdsOK (sdsMakeRoomFor fill s n) ∧ (sdsMakeRoomFor fill s n).len = s.len ∧
      (n : ℤ) ≤ (sdsMakeRoomFor fill s n).free ∧
      (sdsMakeRoomFor fill s n).content = s.content := by
  have hl := h.sdslen_eq
  have ha := h.sdsavail_eq
  have hb := h.block
  have hf := h.free
  unfold sdsMakeRoomFor
  by_cases hroom : n ≤ sdsavail s
  · rw [if_pos hroom]; exact ⟨h, rfl, by omega, rfl⟩
  rw [if_neg hroom]
  -- the block grows: the new `free` still is an `int`
  have hm1 := newlen_bound (hn.resolve_left hroom)
  dsimp only [sdshdrSize]
  set m := sdsNewlen (sdslen s) n
  have hfree : toInt ((m : ℤ) - sdslen s) = (m : ℤ) - sdslen s :=
    toInt_of_range (by omega) (by omega)
  rw [Nat.mod_eq_of_lt (show 8 + m + 1 < 2 ^ 64 by omega), show 8 + m + 1 - 8 = m + 1 by omega, hfree]
  refine ⟨⟨h.len, by dsimp only; omega, ?_, by dsimp only; omega⟩, rfl, by omega, ?_⟩
  · dsimp only; rw [zrealloc_length]; omega
  · unfold Sds.content sdslen
    exact zrealloc_take fill (by change sdslen s ≤ _; omega) (by omega)

theorem poke_some {b xs : List UInt8} {i : ℕ} (h : i + xs.length ≤ b.length) :
    poke b i xs = some (b.take i ++ xs ++ b.drop (i + xs.length)) := by
  cases xs with
  | nil => simp [poke]
  | cons x xs => simp only [poke]; rw [if_pos h]

theorem poke_length {b xs b' : List UInt8} {i : ℕ} (h : poke b i xs = some b') :
    b'.length = b.length := by
  cases xs with
  | nil => simp only [poke, Option.some.injEq] at h; rw [h]
  | cons x xs =>
    simp only [poke] at h
    split at h
    · simp only [Option.some.injEq] at h
      subst h
      simp only [List.length_append, List.length_take, List.length_drop]; omega
    · cases h

/-- A write inside the block leaves the header right. -/
theorem SdsOK.withBuf {s : Sds} (h : SdsOK s) {b : List UInt8} (hb : b.length = s.buf.length) :
    SdsOK { s with buf := b } := ⟨h.len, h.free, by simp only [hb]; exact h.block, h.fits⟩

/-- **`sdsIncrLen` makes the next `n` bytes of the block part of the string**, and puts the
terminator behind them. -/
theorem incr_ok {s : Sds} (h : SdsOK s) {n : ℕ} (hroom : (n : ℤ) ≤ s.free) :
    ∃ s', sdsIncrLen s n = some s' ∧ SdsOK s' ∧ sdslen s' = sdslen s + n ∧
      s'.content = s.buf.take (sdslen s + n) ∧ s'.buf[sdslen s']? = some 0 := by
  have hl := h.sdslen_eq
  have hb := h.block
  have hf := h.free
  have hfit := h.fits
  have hn : (s.len + (n : ℤ)).toNat = sdslen s + n := by omega
  set bt := s.buf.take (sdslen s + n) ++ [0] ++ s.buf.drop (sdslen s + n + 1) with hbtdef
  have hbtl : bt.length = s.buf.length := by
    rw [hbtdef]
    simp only [List.length_append, List.length_take, List.length_drop, List.length_cons, List.length_nil]
    omega
  have hpre : (s.buf.take (sdslen s + n)).length = sdslen s + n := by rw [List.length_take]; omega
  have hs' : sdslen ⟨s.len + n, s.free - n, bt⟩ = sdslen s + n := by
    unfold sdslen
    rw [toSize_of_range (by simp only; omega) (by simp only; omega)]
    exact hn
  refine ⟨⟨s.len + n, s.free - n, bt⟩, ?_, ?_, hs', ?_, ?_⟩
  · unfold sdsIncrLen
    simp only
    rw [toInt_of_range (by omega) (by omega), toInt_of_range (by omega) (by omega), if_neg (by omega),
      if_neg (by omega), hn, poke_some (by simp only [List.length_cons, List.length_nil]; omega)]
    rfl
  · refine ⟨by simp only; omega, by simp only; omega, ?_, by simp only; omega⟩
    simp only [hbtl]; omega
  · unfold Sds.content
    rw [hs', hbtdef, List.append_assoc, List.take_append_of_le_length (by omega),
      List.take_of_length_le (by omega)]
  · rw [hs', hbtdef, List.append_assoc, List.getElem?_append_right (by omega), hpre, Nat.sub_self]
    rfl

/-- **Bytes stored behind the string and then counted are appended to it.** -/
theorem append_ok {s : Sds} (h : SdsOK s) (bs : List UInt8) (hroom : (bs.length : ℤ) ≤ s.free) :
    ∃ b s', poke s.buf (sdslen s) bs = some b ∧ sdsIncrLen { s with buf := b } bs.length = some s' ∧
      SdsOK s' ∧ s'.content = s.content ++ bs := by
  have hl := h.sdslen_eq
  have hb := h.block
  have hin : sdslen s + bs.length ≤ s.buf.length := by omega
  have hpoke := poke_some hin
  obtain ⟨s', hincr, hs', -, hcont, -⟩ := incr_ok (h.withBuf (poke_length hpoke)) hroom
  refine ⟨_, s', hpoke, hincr, hs', hcont.trans ?_⟩
  have hlen : (s.buf.take (sdslen s)).length = sdslen s := by rw [List.length_take]; omega
  change (s.buf.take (sdslen s) ++ bs ++ s.buf.drop (sdslen s + bs.length)).take (sdslen s + bs.length) = _
  rw [List.take_append_of_le_length (by rw [List.length_append]; omega),
    List.take_of_length_le (by rw [List.length_append]; omega)]
  rfl

/-- **Bytes stored at the start of the block and then counted** overwrite the string; what the string gains at
its end is what the block held there. -/
theorem overwrite_ok {s : Sds} (h : SdsOK s) (bs : List UInt8) (hroom : (bs.length : ℤ) ≤ s.free) :
    ∃ b s', poke s.buf 0 bs = some b ∧ sdsIncrLen { s with buf := b } bs.length = some s' ∧ SdsOK s' ∧
      sdslen s' = sdslen s + bs.length ∧
      s'.content = (bs ++ s.buf.drop bs.length).take (sdslen s + bs.length) ∧ s'.buf[sdslen s']? = some 0 := by
  have hl := h.sdslen_eq
  have hb := h.block
  have hin : 0 + bs.length ≤ s.buf.length := by omega
  have hpoke := poke_some hin
  obtain ⟨s', hincr, hs', hlen, hcont, hend⟩ := incr_ok (h.withBuf (poke_length hpoke)) hroom
  refine ⟨_, s', hpoke, hincr, hs', hlen, hcont.trans ?_, hend⟩
  rw [List.take_zero, List.nil_append, Nat.zero_add]
  rfl

theorem rangeIndex_nat (n k : ℕ) : rangeIndex n (k : ℤ) = k := by
  unfold rangeIndex; rw [if_neg (by omega)]

theorem rangeIndex_last {n : ℕ} (h0 : 0 < n) (h : n < 2 ^ 31) : rangeIndex n (-1) = (n : ℤ) - 1 := by
  unfold rangeIndex
  rw [if_pos (by omega), toInt_of_range (by omega) (by omega), if_neg (by omega)]; ring

/-- The window behind the first `k` characters. The exactly consumed string is the case
`start > end` of the source. -/
theorem rangeWindow_tail {n k : ℕ} (h0 : 0 < n) (h : n < 2 ^ 31) (hk : k ≤ n) :
    rangeWindow n k (-1) = if k = n then (0, 0) else ((k : ℤ), n - k) := by
  unfold rangeWindow
  rw [rangeIndex_nat, rangeIndex_last h0 h, toInt_nat h]
  dsimp only
  by_cases hall : k = n
  · rw [if_pos (show (k : ℤ) > (n : ℤ) - 1 by omega), if_neg (not_not.2 rfl), if_pos hall]
  · rw [if_neg (show ¬ (k : ℤ) > (n : ℤ) - 1 by omega), if_neg hall]
    have hsz : toSize ((n : ℤ) - 1 - k + 1) = n - k := by
      rw [toSize_of_range (by omega) (by omega)]; omega
    rw [hsz, if_pos (show n - k ≠ 0 by omega), if_neg (show ¬ (k : ℤ) ≥ (n : ℤ) by omega),
      if_neg (show ¬ (n : ℤ) - 1 ≥ (n : ℤ) by omega)]

/-- For any start the window is inside the string. -/
theorem rangeWindow_inside {n : ℕ} (h0 : 0 < n) (h : n < 2 ^ 31) {start : ℤ} (hlo : -2 ^ 31 ≤ start) :
    (rangeWindow n start (-1)).2 = 0 ∨
      (rangeWindow n start (-1)).1.toNat + (rangeWindow n start (-1)).2 ≤ n := by
  have hstart : 0 ≤ rangeIndex n start := by
    unfold rangeIndex
    split
    · rw [toInt_of_range (by omega) (by omega)]
      split <;> omega
    · omega
  unfold rangeWindow
  rw [rangeIndex_last h0 h, toInt_nat h]
  generalize rangeIndex n start = i at hstart
  dsimp only
  by_cases hi : i > (n : ℤ) - 1
  · left
    rw [if_pos hi, if_neg (not_not.2 rfl)]
  · right
    have hsz : toSize ((n : ℤ) - 1 - i + 1) = n - i.toNat := by
      rw [toSize_of_range (by omega) (by omega)]
      omega
    rw [if_neg hi, hsz, if_pos (show n - i.toNat ≠ 0 by omega), if_neg (show ¬ i ≥ (n : ℤ) by omega),
      if_neg (show ¬ (n : ℤ) - 1 ≥ (n : ℤ) by omega)]
    dsimp only
    omega

/-- Keeping `m` characters from offset `i` on. -/
theorem moved_ok {s : Sds} (h : SdsOK s) {i m : ℕ} (hm : i + m ≤ sdslen s) :
    SdsOK ⟨m, s.free + (s.len - m), ((s.buf.drop i).take m ++ s.buf.drop m).set m 0⟩ ∧
      Sds.content ⟨m, s.free + (s.len - m), ((s.buf.drop i).take m ++ s.buf.drop m).set m 0⟩ =
        (s.content.drop i).take m := by
  have hl := h.sdslen_eq
  have hb := h.block
  have hf := h.free
  have hfit := h.fits
  have hml : ((s.buf.drop i).take m).length = m := by
    rw [List.length_take, List.length_drop]; omega
  have hlen : sdslen ⟨m, s.free + (s.len - m), ((s.buf.drop i).take m ++ s.buf.drop m).set m 0⟩ = m :=
    toSize_nat (by omega)
  refine ⟨⟨by simp only; omega, by simp only; omega, ?_, by simp only; omega⟩, ?_⟩
  · simp only [List.length_set, List.length_append, hml, List.length_drop]; omega
  · unfold Sds.content
    rw [hlen, List.take_set_of_le (le_refl _), List.take_append_of_le_length (by omega),
      List.take_of_length_le (by omega), List.drop_take, List.take_take, min_eq_left (by omega)]

/-- `sdsrange` to the end keeps a string well formed, whatever the start is. -/
theorem range_keeps {s : Sds} (h : SdsOK s) {start : ℤ} (hlo : -2 ^ 31 ≤ start) :
    SdsOK (sdsrange s start (-1)) := by
  have hl := h.sdslen_eq
  have hf := h.free
  have hfit := h.fits
  unfold sdsrange
  by_cases h0 : sdslen s = 0
  · rw [if_pos h0]
    exact h
  rw [if_neg h0]
  have hin := rangeWindow_inside (show 0 < sdslen s by omega) (by omega) hlo
  generalize rangeWindow (sdslen s) start (-1) = w at hin
  obtain ⟨i, m⟩ := w
  dsimp only at hin ⊢
  have hm : m ≤ sdslen s := by omega
  have hfree : toInt (s.free + (s.len - (m : ℤ))) = s.free + (s.len - (m : ℤ)) :=
    toInt_of_range (by omega) (by omega)
  rw [hfree, toInt_nat (by omega)]
  rcases hin with rfl | hin
  · exact (moved_ok h (i := 0) (m := 0) (by omega)).1
  · exact (moved_ok h hin).1

/-- **`sdsrange s k (-1)` drops the first `k` characters.** -/
theorem range_ok {s : Sds} (h : SdsOK s) {k : ℕ} (hk : k ≤ sdslen s) :
    SdsOK (sdsrange s k (-1)) ∧ (sdsrange s k (-1)).content = s.content.drop k := by
  have hl := h.sdslen_eq
  have hf := h.free
  have hfit := h.fits
  have hclen := h.length_content
  unfold sdsrange
  by_cases h0 : sdslen s = 0
  · rw [if_pos h0, show k = 0 by omega, List.drop_zero]
    exact ⟨h, rfl⟩
  rw [if_neg h0, rangeWindow_tail (by omega) (by omega) hk]
  by_cases hall : k = sdslen s
  · rw [if_pos hall]
    obtain ⟨h1, h2⟩ := moved_ok h (i := 0) (m := 0) (by omega)
    have hfree : toInt (s.free + (s.len - ((0 : ℕ) : ℤ))) = s.free + (s.len - ((0 : ℕ) : ℤ)) :=
      toInt_of_range (by omega) (by omega)
    dsimp only
    rw [hfree, toInt_nat (by omega)]
    exact ⟨h1, h2.trans (by rw [List.drop_of_length_le (by omega : s.content.length ≤ k)]; rfl)⟩
  · rw [if_neg hall]
    obtain ⟨h1, h2⟩ := moved_ok h (i := k) (m := sdslen s - k) (by omega)
    have hfree : toInt (s.free + (s.len - ((sdslen s - k : ℕ) : ℤ))) =
        s.free + (s.len - ((sdslen s - k : ℕ) : ℤ)) := toInt_of_range (by omega) (by omega)
    dsimp only
    rw [hfree, toInt_nat (by omega), Int.toNat_natCast]
    refine ⟨h1, h2.trans (List.take_of_length_le ?_)⟩
    rw [List.length_drop]; omega

end Spigeon
