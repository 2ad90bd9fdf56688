import Mathlib.Data.Nat.Log
import Spigeon.Lib.Lts
import Spigeon.Proof.Sds
import Spigeon.Spec.SdsOps

/-!
# Simple dynamic strings are lists of bytes

`SdsIs s c`: the block of `s` is the bytes `c`, the terminator, and the rest that is counted as free. Every
operation takes such a string to the one that the same operation on lists gives.
-/

namespace Spigeon

open CInt CStr

/-- The string `c`: its bytes, a terminator, and room behind it. -/
def SdsIs (s : Sds) (c : List UInt8) : Prop :=
  ∃ rest : List UInt8, s = ⟨c.length, rest.length, c ++ 0 :: rest⟩ ∧ c.length + rest.length < 2 ^ 31

section Blocks

variable {a b xs : List UInt8}

theorem poke_append (h : xs.length ≤ b.length) :
    poke (a ++ b) a.length xs = some (a ++ xs ++ b.drop xs.length) := by
  rw [poke_some (by rw [List.length_append]; omega), List.take_left, List.drop_length_add_append]

theorem poke_start (h : xs.length ≤ b.length) : poke b 0 xs = some (xs ++ b.drop xs.length) :=
  poke_append (a := []) h

/-- A string is stored at the start of a block, with its terminator. -/
theorem poke_string (h : xs.length < b.length) :
    ∃ b', poke b 0 xs = some b' ∧ poke b' xs.length [0] = some (xs ++ 0 :: b.drop (xs.length + 1)) := by
  have hone : ([0] : List UInt8).length ≤ (b.drop xs.length).length := by
    rw [List.length_drop, List.length_singleton]
    omega
  refine ⟨_, poke_start h.le, ?_⟩
  rw [poke_append hone, List.drop_drop, List.length_singleton, List.append_assoc]
  rfl

/-- The terminator is stored in the middle of a block. -/
theorem poke_nul {n : ℕ} (h : n < b.length) : poke b n [0] = some (b.take n ++ 0 :: b.drop (n + 1)) := by
  rw [poke_some (by rw [List.length_singleton]; omega), List.append_assoc]
  rfl

theorem exists_eq_cStr_append (h : 0 ∈ a) : ∃ rest, a = cStr a ++ 0 :: rest := by
  obtain ⟨d, rest, rfl, hd⟩ := List.eq_append_cons_of_mem h
  exact ⟨rest, by rw [cStr_append_nul rest hd]⟩

/-- What stands behind the first zero is not read. -/
theorem cStr_append_of_mem (h : 0 ∈ a) (b : List UInt8) : cStr (a ++ b) = cStr a := by
  obtain ⟨d, rest, rfl, hd⟩ := List.eq_append_cons_of_mem h
  rw [List.append_assoc, List.cons_append, cStr_append_nul _ hd, cStr_append_nul _ hd]

theorem zrealloc_grow (fill : ℕ → UInt8) {n : ℕ} (h : b.length ≤ n) :
    ∃ more, zrealloc fill b n = b ++ more ∧ more.length = n - b.length := by
  refine ⟨(List.range' b.length (n - b.length)).map fill, ?_, by simp⟩
  rw [zrealloc, List.take_of_length_le h]

end Blocks

section Operations

variable {s : Sds} {c : List UInt8} (fill : ℕ → UInt8)

theorem SdsIs.sdslen (h : SdsIs s c) : sdslen s = c.length := by
  obtain ⟨rest, rfl, hlt⟩ := h
  exact toSize_nat (by omega)

theorem SdsIs.content (h : SdsIs s c) : s.content = c := by
  have hlen := h.sdslen
  obtain ⟨rest, rfl, hlt⟩ := h
  rw [Sds.content, hlen, List.take_left]

/-- The header of a block that holds `c`, and as much room as is left in it. -/
theorem SdsIs.of_buf {len free : ℤ} {buf : List UInt8} (rest : List UInt8) (hbuf : buf = c ++ 0 :: rest)
    (hlt : c.length + rest.length < 2 ^ 31) (hlen : len = c.length) (hfree : free = rest.length) :
    SdsIs ⟨len, free, buf⟩ c :=
  ⟨rest, by rw [hbuf, hlen, hfree], hlt⟩

theorem SdsIs.newlen (bs : List UInt8) {n : ℕ} (hn : n ≤ bs.length) (hlt : n < 2 ^ 31) :
    ∃ s', sdsnewlen (some bs) n = some s' ∧ SdsIs s' (bs.take n) := by
  have hlen : (bs.take n).length = n := by rw [List.length_take, min_eq_left hn]
  refine ⟨_, if_pos hn, SdsIs.of_buf [] rfl ?_ ?_ rfl⟩
  · rw [hlen]
    exact hlt
  · rw [hlen, toInt_nat hlt]

theorem SdsIs.dup (h : SdsIs s c) : ∃ s', sdsdup s = some s' ∧ SdsIs s' c := by
  have hlen := h.sdslen
  obtain ⟨rest, rfl, hlt⟩ := h
  have hnew := SdsIs.newlen (c ++ 0 :: rest) (n := c.length) (by rw [List.length_append]; omega) (by omega)
  rw [List.take_left] at hnew
  rw [sdsdup, hlen]
  exact hnew

/-- **`sdsMakeRoomFor`** changes nothing but the room. -/
theorem SdsIs.makeRoomFor {rest : List UInt8} (hs : s = ⟨c.length, rest.length, c ++ 0 :: rest⟩)
    (hlt : c.length + rest.length < 2 ^ 31) {n : ℕ} (hn : c.length + n + sdsMaxPrealloc < 2 ^ 31) :
    ∃ rest' : List UInt8, sdsMakeRoomFor fill s n = ⟨c.length, rest'.length, c ++ 0 :: rest'⟩ ∧ n ≤ rest'.length ∧
      c.length + rest'.length < 2 ^ 31 := by
  have hlen : Spigeon.sdslen s = c.length := SdsIs.sdslen ⟨rest, hs, hlt⟩
  have havail : sdsavail s = rest.length := by
    rw [hs]
    exact toSize_nat (by omega)
  rw [sdsMakeRoomFor, havail]
  by_cases hroom : n ≤ rest.length
  · rw [if_pos hroom]
    exact ⟨rest, hs, hroom, hlt⟩
  · rw [if_neg hroom, hlen]
    obtain ⟨hge, hfit⟩ := newlen_bound hn
    dsimp only [sdshdrSize]
    set m := sdsNewlen c.length n
    rw [Nat.mod_eq_of_lt (show 8 + m + 1 < 2 ^ 64 by omega), show 8 + m + 1 - 8 = m + 1 by omega,
      toInt_of_range (show -2 ^ 31 ≤ (m : ℤ) - c.length by omega) (by omega), hs]
    obtain ⟨more, hmore, hmorelen⟩ := zrealloc_grow (b := c ++ 0 :: rest) (n := m + 1) fill
      (by rw [List.length_append, List.length_cons]; omega)
    rw [List.length_append, List.length_cons] at hmorelen
    refine ⟨rest ++ more, ?_, by rw [List.length_append]; omega, by rw [List.length_append]; omega⟩
    rw [hmore, List.append_assoc, List.cons_append, List.length_append]
    congr 1
    omega

/-- Bytes are stored behind the string, and the terminator behind them. -/
theorem SdsIs.append_bytes {rest t : List UInt8} (ht : t.length ≤ rest.length) :
    ∃ b, poke (c ++ 0 :: rest) c.length t = some b ∧
      poke b (c.length + t.length) [0] = some (c ++ t ++ 0 :: rest.drop t.length) := by
  have hle : t.length ≤ (0 :: rest).length := by
    rw [List.length_cons]
    omega
  refine ⟨_, poke_append hle, ?_⟩
  have hone : ([0] : List UInt8).length ≤ ((0 :: rest).drop t.length).length := by
    rw [List.length_drop, List.length_singleton, List.length_cons]
    omega
  rw [← List.length_append, poke_append hone, List.drop_drop, List.length_singleton, List.append_assoc (c ++ t)]
  rfl

theorem SdsIs.catlen (h : SdsIs s c) {t : List UInt8} (ht : c.length + t.length + sdsMaxPrealloc < 2 ^ 31) :
    ∃ s', sdscatlen fill s t = some s' ∧ SdsIs s' (c ++ t) := by
  have hlen := h.sdslen
  obtain ⟨rest, hs, hlt⟩ := h
  obtain ⟨rest', hroom, hle, hlt'⟩ := SdsIs.makeRoomFor fill hs hlt ht
  obtain ⟨b, hpoke, hpoke'⟩ := SdsIs.append_bytes (c := c) hle
  refine ⟨⟨toInt (c.length + t.length), toInt (rest'.length - t.length), c ++ t ++ 0 :: rest'.drop t.length⟩, ?_,
    ?_⟩
  · simp only [sdscatlen, hlen, hroom, bind, Option.bind, hpoke, hpoke']
  · refine SdsIs.of_buf _ rfl ?_ ?_ ?_
    · rw [List.length_append, List.length_drop]
      omega
    · rw [toInt_of_range (by omega) (by omega), List.length_append]
      omega
    · rw [toInt_of_range (by omega) (by omega), List.length_drop]
      omega

/-- What is stored from the start of the block on, with a terminator behind it. -/
theorem SdsIs.of_start {b t : List UInt8} {total : ℕ} (hb : b.length = total + 1) (hlt : total < 2 ^ 31)
    (ht : t.length ≤ total) :
    ∃ b' b'', poke b 0 t = some b' ∧ poke b' t.length [0] = some b'' ∧
      ∀ {len free : ℤ}, len = t.length → free = total - t.length → SdsIs ⟨len, free, b''⟩ t := by
  obtain ⟨b', hpoke, hpoke'⟩ := poke_string (show t.length < b.length by omega)
  refine ⟨b', _, hpoke, hpoke', fun hlen hfree => SdsIs.of_buf _ rfl ?_ hlen ?_⟩
  · rw [List.length_drop]
    omega
  · rw [hfree, List.length_drop]
    omega

/-- `totlen`, the length and the room together. -/
theorem toSize_total {m n : ℕ} (h : m + n < 2 ^ 31) : toSize (toInt ((m : ℤ) + n)) = m + n := by
  rw [toInt_of_range (by omega) (by omega), toSize_of_range (by omega) (by omega)]
  omega

theorem SdsIs.cpyRoom (h : SdsIs s c) {n : ℕ} (hn : n + sdsMaxPrealloc < 2 ^ 31) :
    SdsIs (cpyRoom fill s n) c ∧ n < (cpyRoom fill s n).buf.length := by
  obtain ⟨rest, rfl, hlt⟩ := h
  rw [Spigeon.cpyRoom, toSize_total (by omega)]
  by_cases hroom : rest.length + c.length < n
  · have hadd : toSize ((n : ℤ) - c.length) = n - c.length := by
      rw [toSize_of_range (by omega) (by omega)]
      omega
    rw [if_pos hroom, hadd]
    obtain ⟨rest', hroom', hle, hlt'⟩ := SdsIs.makeRoomFor fill (n := n - c.length) rfl hlt (by omega)
    rw [hroom']
    refine ⟨⟨rest', rfl, hlt'⟩, ?_⟩
    rw [List.length_append, List.length_cons]
    omega
  · rw [if_neg hroom]
    refine ⟨⟨rest, rfl, hlt⟩, ?_⟩
    rw [List.length_append, List.length_cons]
    omega

theorem SdsIs.cpylen (h : SdsIs s c) {t : List UInt8} (ht : t.length + sdsMaxPrealloc < 2 ^ 31) :
    ∃ s', sdscpylen fill s t = some s' ∧ SdsIs s' t := by
  obtain ⟨⟨rest, hs, hlt⟩, hlong⟩ := h.cpyRoom fill ht
  have hbuf : (c ++ 0 :: rest).length = rest.length + c.length + 1 := by
    rw [List.length_append, List.length_cons]
    omega
  rw [hs, hbuf] at hlong
  obtain ⟨b, b', hpoke, hpoke', hIs⟩ := SdsIs.of_start hbuf (by omega) (show t.length ≤ rest.length + c.length by
    omega)
  refine ⟨_, ?_, hIs (toInt_nat (by omega)) (toInt_of_range (by omega) (by omega))⟩
  simp only [sdscpylen, hs, bind, Option.bind, hpoke, hpoke']
  rw [toSize_total (by omega)]

/-- `sdscatvprintf` cuts no text short: the byte it looks at is not zero in a text that was cut, or the C string
ended before. -/
theorem cStr_vprintfBuf (text : List UInt8) (k : ℕ) : cStr (vprintfBuf text k) = cStr text := by
  induction k using vprintfBuf.induct text with
  | case1 k hcut ih => rw [vprintfBuf, if_pos hcut, ih]
  | case2 k hcut =>
    rw [vprintfBuf, if_neg hcut]
    set n := 16 * 2 ^ k with hn
    have hpos : 0 < 2 ^ k := Nat.two_pow_pos k
    by_cases hshort : text.length ≤ n - 2
    · rw [List.take_of_length_le (by omega)]
    · have hget : text[n - 2]? = some 0 := by
        rw [List.getElem?_eq_getElem (by omega)] at hcut ⊢
        exact congrArg some (not_not.1 hcut)
      have hmem : 0 ∈ text.take (n - 1) := by
        refine List.mem_of_getElem? (i := n - 2) ?_
        rw [List.getElem?_take_of_lt (by omega), hget]
      calc cStr (text.take (n - 1)) = cStr (text.take (n - 1) ++ text.drop (n - 1)) :=
        (cStr_append_of_mem hmem _).symm
        _ = cStr text := by rw [List.take_append_drop]

theorem SdsIs.catprintf (h : SdsIs s c) {text : List UInt8}
    (ht : c.length + text.length + sdsMaxPrealloc < 2 ^ 31) :
    ∃ s', sdscatprintf fill s text = some s' ∧ SdsIs s' (c ++ cStr text) := by
  have hle : (cStr text).length ≤ text.length := (List.takeWhile_sublist _).length_le
  rw [sdscatprintf, cStr_vprintfBuf]
  exact h.catlen fill (by omega)

theorem SdsIs.receive (h : SdsIs s c) {room : ℕ} {bs : List UInt8}
    (hroom : c.length + room + sdsMaxPrealloc < 2 ^ 31) (hbs : bs.length ≤ room) :
    ∃ s', sdsReceive fill s room bs = some s' ∧ SdsIs s' (c ++ bs) := by
  have hlen := h.sdslen
  obtain ⟨rest, hs, hlt⟩ := h
  obtain ⟨rest', hmake, hle, hlt'⟩ := SdsIs.makeRoomFor fill hs hlt hroom
  obtain ⟨b, hpoke, hpoke'⟩ := SdsIs.append_bytes (c := c) (hbs.trans hle)
  refine ⟨⟨c.length + bs.length, rest'.length - bs.length, c ++ bs ++ 0 :: rest'.drop bs.length⟩, ?_, ?_⟩
  · simp only [sdsReceive, hlen, hmake, bind, Option.bind, hpoke, sdsIncrLen]
    rw [toInt_of_range (by omega) (by omega), toInt_of_range (by omega) (by omega), if_neg (by omega),
      if_neg (by omega), show ((c.length : ℤ) + bs.length).toNat = c.length + bs.length by omega, hpoke']
    rfl
  · refine SdsIs.of_buf _ rfl ?_ ?_ ?_
    · rw [List.length_append, List.length_drop]
      omega
    · rw [List.length_append, Nat.cast_add]
    · rw [List.length_drop]
      omega

theorem SdsIs.growzero (h : SdsIs s c) {n : ℕ} (hn : n + sdsMaxPrealloc < 2 ^ 31) :
    ∃ s', sdsgrowzero fill s n = some s' ∧ SdsIs s' (c ++ List.replicate (n - c.length) 0) := by
  have hlen : toSize s.len = c.length := h.sdslen
  rw [sdsgrowzero, hlen]
  by_cases hle : n ≤ c.length
  · refine ⟨s, if_pos hle, ?_⟩
    rw [Nat.sub_eq_zero_of_le hle, List.replicate_zero, List.append_nil]
    exact h
  obtain ⟨rest, hs, hlt⟩ := h
  obtain ⟨rest', hmake, hroom, hlt'⟩ := SdsIs.makeRoomFor fill (n := n - c.length) hs hlt (by omega)
  set m := n - c.length with hm
  -- the zeros and the terminator are stored by one call
  have hpoke : poke (c ++ 0 :: rest') c.length (List.replicate (m + 1) 0) =
      some (c ++ List.replicate m 0 ++ 0 :: rest'.drop m) := by
    rw [poke_append (by rw [List.length_replicate, List.length_cons]; omega), List.length_replicate,
      List.replicate_succ', List.drop_succ_cons, List.append_assoc, List.append_assoc, List.append_assoc]
    rfl
  dsimp only
  rw [if_neg hle, hmake, toSize_total hlt', hpoke, Option.map_some]
  refine ⟨_, rfl, SdsIs.of_buf _ rfl ?_ ?_ ?_⟩
  · rw [List.length_append, List.length_replicate, List.length_drop]
    omega
  · rw [toInt_nat (by omega), List.length_append, List.length_replicate]
    omega
  · rw [toInt_nat (by omega), toInt_of_range (by omega) (by omega), List.length_drop]
    omega

theorem SdsIs.removeFreeSpace (h : SdsIs s c) : SdsIs (sdsRemoveFreeSpace fill s) c := by
  have hlen : toSize s.len = c.length := h.sdslen
  obtain ⟨rest, rfl, hlt⟩ := h
  rw [sdsRemoveFreeSpace, hlen]
  dsimp only [sdshdrSize]
  rw [Nat.mod_eq_of_lt (by omega), show 8 + c.length + 1 - 8 = c.length + 1 by omega]
  have hcut : zrealloc fill (c ++ 0 :: rest) (c.length + 1) = c ++ [0] := by
    rw [zrealloc, List.take_length_add_append, List.length_append, List.length_cons,
      show c.length + 1 - (c.length + (rest.length + 1)) = 0 by omega]
    simp
  exact SdsIs.of_buf [] hcut (by rw [List.length_nil]; omega) rfl rfl

/-- What is left when a string is cut: the terminator is stored inside of it. -/
theorem SdsIs.cut {rest : List UInt8} {n : ℕ} (hn : n ≤ c.length) (hlt : c.length + rest.length < 2 ^ 31) :
    ∃ b, poke (c ++ 0 :: rest) n [0] = some b ∧
      ∀ {len free : ℤ}, len = n → free = c.length + rest.length - n → SdsIs ⟨len, free, b⟩ (c.take n) := by
  have hbuf : (c ++ 0 :: rest).length = c.length + rest.length + 1 := by
    rw [List.length_append, List.length_cons]
    omega
  refine ⟨_, poke_nul (by omega), fun hlen hfree => SdsIs.of_buf ((c ++ 0 :: rest).drop (n + 1)) ?_ ?_ ?_ ?_⟩
  · rw [List.take_append_of_le_length hn]
  · rw [List.length_take, List.length_drop]
    omega
  · rw [List.length_take]
    omega
  · rw [List.length_drop]
    omega

theorem SdsIs.shorten (h : SdsIs s c) {n : ℕ} (hn : n ≤ 2 ^ 31) :
    if n ≤ c.length then ∃ s', sdsIncrLen s (-n) = some s' ∧ SdsIs s' (c.take (c.length - n))
    else sdsIncrLen s (-n) = none := by
  obtain ⟨rest, rfl, hlt⟩ := h
  rw [sdsIncrLen]
  dsimp only
  rw [if_neg (show ¬ (rest.length : ℤ) < -n by omega)]
  by_cases hle : n ≤ c.length
  · obtain ⟨b, hpoke, hIs⟩ := SdsIs.cut (n := c.length - n) (by omega) hlt
    rw [if_pos hle, toInt_of_range (by omega) (by omega), toInt_of_range (by omega) (by omega), if_neg (by omega),
      show ((c.length : ℤ) + -n).toNat = c.length - n by omega, hpoke]
    exact ⟨_, rfl, hIs (by omega) (by omega)⟩
  · rw [if_neg hle, toInt_of_range (z := (c.length : ℤ) + -n) (by omega) (by omega), if_pos (by omega)]

theorem SdsIs.clear (h : SdsIs s c) : ∃ s', sdsclear s = some s' ∧ SdsIs s' [] := by
  obtain ⟨rest, rfl, hlt⟩ := h
  obtain ⟨b, hpoke, hIs⟩ := SdsIs.cut (n := 0) (Nat.zero_le _) hlt
  rw [sdsclear]
  dsimp only
  rw [hpoke, toInt_of_range (by omega) (by omega)]
  exact ⟨_, rfl, hIs rfl (by omega)⟩

theorem SdsIs.updatelen (h : SdsIs s c) : ∃ s', sdsupdatelen s = some s' ∧ SdsIs s' (cStr c) := by
  obtain ⟨rest, rfl, hlt⟩ := h
  have hmem : (0 : UInt8) ∈ c ++ 0 :: rest := by simp
  have hcstr : cStr (c ++ 0 :: rest) = cStr c := by
    by_cases hc : 0 ∈ c
    · exact cStr_append_of_mem hc _
    · rw [cStr_append_nul rest hc, cStr_eq_self hc]
  obtain ⟨rest', hsplit⟩ := exists_eq_cStr_append hmem
  rw [hcstr] at hsplit
  have hlen := congrArg List.length hsplit
  rw [List.length_append, List.length_append, List.length_cons, List.length_cons] at hlen
  rw [sdsupdatelen]
  dsimp only
  rw [if_pos hmem, hcstr, toInt_nat (by omega), toInt_of_range (by omega) (by omega)]
  exact ⟨_, rfl, SdsIs.of_buf _ hsplit (by omega) rfl (by omega)⟩

theorem SdsIs.mapContent (h : SdsIs s c) (f : UInt8 → UInt8) : SdsIs (mapContent f s) (c.map f) := by
  have hlen := h.sdslen
  have hcontent := h.content
  obtain ⟨rest, rfl, hlt⟩ := h
  rw [Spigeon.mapContent, hcontent, hlen]
  dsimp only
  rw [List.drop_left]
  exact SdsIs.of_buf _ rfl (by rwa [List.length_map]) (by rw [List.length_map]) rfl

/-! ### `sdstrim` and `sdsrange` -/

/-- The loop from the end stops at the last byte that is not in the set, or at the first byte. -/
theorem trimEnd_eq {cset buf : List UInt8} {k e : ℕ} (hle : e ≤ k)
    (hin : ∀ i, e < i → i ≤ k → inCset cset (buf[i]?.getD 0) = true)
    (hstop : e = 0 ∨ inCset cset (buf[e]?.getD 0) = false) : trimEnd cset buf k = e := by
  induction k with
  | zero => exact (Nat.le_zero.1 hle).symm
  | succ k ih =>
    rcases Nat.lt_or_eq_of_le hle with hlt | rfl
    · rw [trimEnd, if_pos (hin (k + 1) hlt le_rfl)]
      exact ih (Nat.le_of_lt_succ hlt) fun i hi hik => hin i hi (Nat.le_succ_of_le hik)
    · rw [trimEnd, hstop.resolve_left (Nat.succ_ne_zero k), if_neg Bool.false_ne_true]

/-- What is taken off at both ends, and what is kept. -/
theorem trim_parts (p : UInt8 → Bool) (c : List UInt8) :
    ∃ z, c = c.takeWhile p ++ (c.dropWhile p).rdropWhile p ++ z ∧ (∀ b ∈ z, p b = true) ∧
      ((c.dropWhile p).rdropWhile p = [] → z = []) := by
  refine ⟨(c.dropWhile p).rtakeWhile p, ?_, fun b => List.mem_rtakeWhile_imp, fun hnil => ?_⟩
  · rw [List.append_assoc, List.rdropWhile_append_rtakeWhile, List.takeWhile_append_dropWhile]
  · -- all that is left behind the first byte outside of the set would be in the set
    have hall := List.rdropWhile_eq_nil_iff.1 hnil
    have hdrop : c.dropWhile p = [] := by
      cases hd : c.dropWhile p with
      | nil => rfl
      | cons b d =>
        have hhead := List.head?_dropWhile_not p c
        rw [hd] at hhead hall
        exact absurd (hall b List.mem_cons_self) (by simpa using hhead)
    rw [hdrop]
    rfl

/-- The window that `sdstrim` keeps. -/
theorem trimLen_eq (cset rest : List UInt8) {a m z : List UInt8} (hm : m = [] → z = [])
    (ha : ∀ b ∈ a, inCset cset b = true) (hz : ∀ b ∈ z, inCset cset b = true)
    (hlast : ∀ h : m ≠ [], inCset cset (m.getLast h) = false) :
    trimLen cset (a ++ m ++ z ++ 0 :: rest) (a ++ m ++ z).length a.length = m.length := by
  rw [trimLen]
  by_cases hnil : m = []
  · subst hnil
    rw [hm rfl, List.append_nil, List.append_nil]
    by_cases hlen : a.length = 0
    · rw [if_pos hlen, if_pos (by omega)]
      rfl
    · have hend : trimEnd cset (a ++ 0 :: rest) (a.length - 1) = 0 := by
        refine trimEnd_eq (Nat.zero_le _) (fun i _ hi => ?_) (Or.inl rfl)
        rw [List.getElem?_append_left (by omega), List.getElem?_eq_getElem (by omega)]
        exact ha _ (List.getElem_mem _)
      rw [if_neg hlen, hend, if_pos (by omega)]
      rfl
  · have hpos := List.length_pos_of_ne_nil hnil
    have hlen : (a ++ m ++ z).length = a.length + m.length + z.length := by
      rw [List.length_append, List.length_append]
    have hend : trimEnd cset (a ++ m ++ z ++ 0 :: rest) ((a ++ m ++ z).length - 1) = a.length + m.length - 1 := by
      refine trimEnd_eq (by omega) (fun i hi hle => ?_) (Or.inr ?_)
      · rw [List.getElem?_append_left (by omega), List.getElem?_append_right (by rw [List.length_append]; omega),
          List.getElem?_eq_getElem (by rw [List.length_append]; omega)]
        exact hz _ (List.getElem_mem _)
      · have hidx : a.length + m.length - 1 - a.length = m.length - 1 := by omega
        rw [List.append_assoc, List.getElem?_append_left (by rw [List.length_append]; omega),
          List.getElem?_append_right (by omega), hidx, ← List.getLast?_eq_getElem?,
          List.getLast?_eq_getLast_of_ne_nil hnil]
        exact hlast hnil
    rw [if_neg (by omega), hend, if_neg (by omega)]
    omega

theorem SdsIs.trim (h : SdsIs s c) (cset : List UInt8) :
    ∃ s', sdstrim s cset = some s' ∧ SdsIs s' ((c.dropWhile (inCset cset)).rdropWhile (inCset cset)) := by
  have hlen := h.sdslen
  have hcontent := h.content
  obtain ⟨rest, rfl, hlt⟩ := h
  obtain ⟨z, hparts, hz, hmz⟩ := trim_parts (inCset cset) c
  have hstart : ∀ b ∈ c.takeWhile (inCset cset), inCset cset b = true := fun b => List.mem_takeWhile_imp
  have hlast := List.rdropWhile_last_not (inCset cset) (c.dropWhile (inCset cset))
  rw [sdstrim, hcontent, hlen]
  generalize c.takeWhile (inCset cset) = a at *
  generalize (c.dropWhile (inCset cset)).rdropWhile (inCset cset) = m at *
  have hwindow := trimLen_eq cset rest hmz hstart hz fun hne => Bool.eq_false_of_not_eq_true (hlast hne)
  have hkept : ((c ++ 0 :: rest).drop a.length).take m.length = m := by
    rw [hparts, List.append_assoc, List.append_assoc, List.drop_left, List.take_left]
  have hmlen : m.length ≤ c.length := by
    rw [hparts, List.length_append, List.length_append]
    omega
  have hbuf : (c ++ 0 :: rest).length = c.length + rest.length + 1 := by
    rw [List.length_append, List.length_cons]
    omega
  obtain ⟨b, b', hpoke, hpoke', hIs⟩ := SdsIs.of_start (t := m) hbuf hlt (by omega)
  rw [← hparts] at hwindow
  dsimp only [bind]
  rw [hwindow, hkept, hpoke, Option.bind_some, hpoke', Option.bind_some]
  exact ⟨_, rfl, hIs (toInt_nat (by omega)) ((toInt_of_range (by omega) (by omega)).trans (by omega))⟩

theorem rangeIndex_eq {n : ℕ} (hn : n < 2 ^ 31) {i : ℤ} (hi : -2 ^ 31 ≤ i) :
    rangeIndex n i = SdsOp.index n i := by
  rw [rangeIndex, SdsOp.index]
  by_cases hneg : i < 0
  · rw [if_pos hneg, if_pos hneg, toInt_of_range (by omega) (by omega)]
    by_cases hlow : (n : ℤ) + i < 0
    · rw [if_pos hlow]
      omega
    · rw [if_neg hlow]
      omega
  · rw [if_neg hneg, if_neg hneg]
    omega

/-- The window that `sdsrange` keeps. -/
theorem rangeWindow_slice {start stop : ℤ} (h0 : 0 < c.length) (hlt : c.length < 2 ^ 31)
    (hstart : -2 ^ 31 ≤ start ∧ start < 2 ^ 31) (hstop : -2 ^ 31 ≤ stop ∧ stop < 2 ^ 31) :
    ∃ i m : ℕ, ((rangeWindow c.length start stop).1.toNat = i ∨ m = 0) ∧ (rangeWindow c.length start stop).2 = m ∧
      i + m ≤ c.length ∧ (c.drop i).take m = SdsOp.slice c start stop := by
  rw [rangeWindow, SdsOp.slice, rangeIndex_eq hlt hstart.1, rangeIndex_eq hlt hstop.1, toInt_nat hlt]
  have hbound : ∀ i : ℤ, i < 2 ^ 31 → SdsOp.index c.length i < 2 ^ 31 := by
    intro i hi
    rw [SdsOp.index]
    split <;> omega
  have hi := hbound start hstart.2
  have hj := hbound stop hstop.2
  generalize SdsOp.index c.length start = i at *
  generalize SdsOp.index c.length stop = j at *
  dsimp only
  -- the window is empty, behind the end, over the end or inside
  by_cases hempty : i > j
  · rw [if_pos (show (i : ℤ) > j by omega), if_neg (not_not.2 rfl), if_pos hempty]
    exact ⟨0, 0, Or.inr rfl, rfl, Nat.zero_le _, rfl⟩
  · have hnew : toSize ((j : ℤ) - i + 1) = j - i + 1 := by
      rw [toSize_of_range (by omega) (by omega)]
      omega
    rw [if_neg (show ¬ (i : ℤ) > j by omega), hnew, if_pos (Nat.succ_ne_zero _), if_neg hempty]
    by_cases hout : (i : ℤ) ≥ c.length
    · rw [if_pos hout]
      refine ⟨0, 0, Or.inr rfl, rfl, Nat.zero_le _, ?_⟩
      rw [List.drop_of_length_le (show c.length ≤ i by omega), List.take_nil, List.take_zero]
    · rw [if_neg hout]
      by_cases hlong : (j : ℤ) ≥ c.length
      · have hrest : toSize ((c.length : ℤ) - 1 - i + 1) = c.length - i := by
          rw [toSize_of_range (by omega) (by omega)]
          omega
        rw [if_pos hlong, toInt_of_range (by omega) (by omega), if_neg (by omega), hrest]
        refine ⟨i, c.length - i, Or.inl (Int.toNat_natCast i), rfl, by omega, ?_⟩
        rw [List.take_of_length_le (by rw [List.length_drop]),
          List.take_of_length_le (by rw [List.length_drop]; omega)]
      · rw [if_neg hlong]
        exact ⟨i, j - i + 1, Or.inl (Int.toNat_natCast i), rfl, by omega, rfl⟩

theorem SdsIs.range (h : SdsIs s c) {start stop : ℤ} (hstart : -2 ^ 31 ≤ start ∧ start < 2 ^ 31)
    (hstop : -2 ^ 31 ≤ stop ∧ stop < 2 ^ 31) : SdsIs (sdsrange s start stop) (SdsOp.slice c start stop) := by
  have hlen := h.sdslen
  rw [sdsrange, hlen]
  by_cases h0 : c.length = 0
  · rw [if_pos h0]
    have hnil : SdsOp.slice c start stop = c := by
      rw [List.length_eq_zero_iff.1 h0, SdsOp.slice, List.drop_nil, List.take_nil, ite_self]
    rw [hnil]
    exact h
  obtain ⟨rest, rfl, hlt⟩ := h
  obtain ⟨i, m, hi, hm, hin, hslice⟩ := rangeWindow_slice (c := c) (by omega) (by omega) hstart hstop
  rw [if_neg h0]
  dsimp only
  rw [hm]
  -- `memmove` copies characters only, never the terminator or what is behind it
  have hmoved : ((c ++ 0 :: rest).drop (rangeWindow c.length start stop).1.toNat).take m =
      SdsOp.slice c start stop := by
    rcases hi with hi | rfl
    · rw [hi, ← hslice, List.drop_append_of_le_length (by omega),
        List.take_append_of_le_length (by rw [List.length_drop]; omega)]
    · rw [← hslice, List.take_zero, List.take_zero]
  have hmlen : (SdsOp.slice c start stop).length = m := by
    rw [← hslice, List.length_take, List.length_drop]
    omega
  have hbuf : (c ++ 0 :: rest).length = c.length + rest.length + 1 := by
    rw [List.length_append, List.length_cons]
    omega
  have hdrop : (c ++ 0 :: rest).drop m = (c ++ 0 :: rest)[m] :: (c ++ 0 :: rest).drop (m + 1) :=
    List.drop_eq_getElem_cons (by omega)
  refine SdsIs.of_buf ((c ++ 0 :: rest).drop (m + 1)) ?_ ?_ ?_ ?_
  · rw [hmoved, hdrop, List.set_append_right _ _ hmlen.le, hmlen, Nat.sub_self]
    rfl
  · rw [hmlen, List.length_drop]
    omega
  · rw [hmlen, toInt_nat (by omega)]
  · rw [toInt_of_range (by omega) (by omega), List.length_drop]
    omega

end Operations

/-! ### Runs -/

theorem SdsOp.exec_rel {s : Sds} {c : List UInt8} (op : SdsOp) (fill : ℕ → UInt8) (h : SdsIs s c)
    (hfits : op.Fits c) :
    Option.Rel SdsIs (SdsOp.exec s (op, fill)) (SdsOp.apply c op) := by
  -- all operations but one give a string
  have hsome : ∀ {o : Option Sds} {d : List UInt8}, (∃ s', o = some s' ∧ SdsIs s' d) →
      Option.Rel SdsIs o (some d) := by
    rintro o d ⟨s', rfl, hs'⟩
    exact .some hs'
  cases op with
  | dup => exact hsome h.dup
  | catlen t => exact hsome (h.catlen fill hfits)
  | cpylen t => exact hsome (h.cpylen fill hfits)
  | catprintf text => exact hsome (h.catprintf fill hfits)
  | receive room bs => exact hsome (h.receive fill hfits.1 hfits.2)
  | growzero len => exact hsome (h.growzero fill hfits)
  | makeRoomFor addlen =>
    obtain ⟨rest, hs, hlt⟩ := h
    obtain ⟨rest', hroom, -, hlt'⟩ := SdsIs.makeRoomFor fill hs hlt hfits
    exact .some ⟨rest', hroom, hlt'⟩
  | removeFreeSpace => exact .some (h.removeFreeSpace fill)
  | shorten n =>
    have hcut := h.shorten hfits
    rw [SdsOp.exec, SdsOp.apply]
    by_cases hle : n ≤ c.length
    · rw [if_pos hle] at hcut ⊢
      exact hsome hcut
    · rw [if_neg hle] at hcut ⊢
      rw [hcut]
      exact .none
  | range start stop => exact .some (h.range ⟨hfits.1, hfits.2.1⟩ hfits.2.2)
  | trim cset => exact hsome (h.trim cset)
  | updatelen => exact hsome h.updatelen
  | clear => exact hsome h.clear
  | tolower => exact .some (h.mapContent toLower)
  | toupper => exact .some (h.mapContent toUpper)
  | mapchars set => exact .some (h.mapContent (mapChar set))

/-- What the header says about the block, and the terminator. -/
theorem SdsIs.header {s : Sds} {c : List UInt8} (h : SdsIs s c) :
    s.buf[Spigeon.sdslen s]? = some 0 ∧ Spigeon.sdslen s + sdsavail s + 1 = s.buf.length ∧
      sdsAllocSize s = sdshdrSize + s.buf.length := by
  have hlen : toSize s.len = c.length := h.sdslen
  obtain ⟨rest, rfl, hlt⟩ := h
  have havail : toSize (rest.length : ℤ) = rest.length := toSize_nat (by omega)
  have hbuf : (c ++ 0 :: rest).length = c.length + rest.length + 1 := by
    rw [List.length_append, List.length_cons]
    omega
  rw [Spigeon.sdslen, sdsavail, sdsAllocSize, sdshdrSize, hlen]
  dsimp only
  rw [havail, hbuf]
  refine ⟨?_, rfl, by omega⟩
  rw [List.getElem?_append_right le_rfl, Nat.sub_self]
  rfl

/-- **A string of the library is a list of bytes**: whatever is done with it, and whatever fresh memory holds,
no write leaves its block, the characters are those of the list, and the header and the terminator are right. A
fault is the terminator that `sdsIncrLen` stores before the block, when it takes off more bytes than there
are. -/
theorem SdsOp.run_refines (init : List UInt8) (ops : List (SdsOp × (ℕ → UInt8))) (hinit : init.length < 2 ^ 31)
    (hfits : Lts.Along SdsOp.apply (fun c op => op.Fits c) init (ops.map Prod.fst)) :
    ∃ s₀, sdsnewlen (some init) init.length = some s₀ ∧
      (Lts.run SdsOp.exec s₀ ops).map Sds.content = Lts.run SdsOp.apply init (ops.map Prod.fst) ∧
      ∀ s, Lts.run SdsOp.exec s₀ ops = some s →
        s.buf[sdslen s]? = some 0 ∧ sdslen s + sdsavail s + 1 = s.buf.length ∧
          sdsAllocSize s = sdshdrSize + s.buf.length := by
  obtain ⟨s₀, hnew, hs₀⟩ := SdsIs.newlen init le_rfl hinit
  rw [List.take_length] at hs₀
  have hrel : Option.Rel SdsIs (Lts.run SdsOp.exec s₀ ops) (Lts.run SdsOp.apply init (ops.map Prod.fst)) :=
    Lts.run_rel (fun s c l h hP => SdsOp.exec_rel l.1 l.2 h hP) hs₀ hfits
  refine ⟨s₀, hnew, ?_⟩
  generalize Lts.run SdsOp.exec s₀ ops = o at hrel ⊢
  generalize Lts.run SdsOp.apply init (ops.map Prod.fst) = o' at hrel ⊢
  cases hrel with
  | none => exact ⟨rfl, fun s h => by cases h⟩
  | some h =>
    refine ⟨congrArg some h.content, fun s hs => ?_⟩
    cases hs
    exact h.header

theorem SdsOp.run_refines_trim :
    ∃ s₀, sdsnewlen (some [65, 32, 98]) 3 = some s₀ ∧
      (Lts.run SdsOp.exec s₀ [(.catlen [32, 0], fun _ => 7), (.trim [32], fun _ => 7)]).map Sds.content =
        some [65, 32, 98] ∧
      ∀ s, Lts.run SdsOp.exec s₀ [(.catlen [32, 0], fun _ => 7), (.trim [32], fun _ => 7)] = some s →
        s.buf[sdslen s]? = some 0 ∧ sdslen s + sdsavail s + 1 = s.buf.length ∧
          sdsAllocSize s = sdshdrSize + s.buf.length := by
  refine SdsOp.run_refines [65, 32, 98] [(.catlen [32, 0], fun _ => 7), (.trim [32], fun _ => 7)] (by decide) ?_
  simp [Lts.Along, SdsOp.Fits, sdsMaxPrealloc]

/-! ### How often a block is moved -/

/-- `a` moves to twice the length and `b` moves that add `sdsMaxPrealloc`, when the block holds `len` characters
and has room for `cap`. -/
structure Grown (a b len cap : ℕ) : Prop where
  doubled : 2 ^ a ≤ cap + 1
  doubled_len : 2 ^ a ≤ 2 * len + 1
  added : b ≠ 0 → (b + 1) * sdsMaxPrealloc ≤ cap
  added_len : b * sdsMaxPrealloc ≤ len

theorem Grown.more {a b len len' cap : ℕ} (h : Grown a b len cap) (hle : len ≤ len') : Grown a b len' cap :=
  ⟨h.doubled, h.doubled_len.trans (by omega), h.added, h.added_len.trans hle⟩

/-- The growth rule, for a string that does not fit. -/
theorem Grown.move {a b len n cap : ℕ} (h : Grown a b len cap) (hcap : cap < len + n)
    (hn : len + n + sdsMaxPrealloc < 2 ^ 31) :
    ∃ a' b', Grown a' b' (len + n) (sdsNewlen len n) ∧ a' + b' = a + b + 1 := by
  have hmod : (len + n) % 2 ^ 64 = len + n := Nat.mod_eq_of_lt (by omega)
  rw [sdsNewlen, hmod]
  by_cases hsmall : len + n < sdsMaxPrealloc
  · -- such a string was never large
    have hb : b = 0 := by
      by_contra hb
      have hadded := h.added hb
      have hone : sdsMaxPrealloc ≤ (b + 1) * sdsMaxPrealloc := Nat.le_mul_of_pos_left _ (Nat.succ_pos b)
      omega
    subst hb
    rw [if_pos hsmall]
    have hdoubled := h.doubled
    refine ⟨a + 1, 0, ⟨?_, ?_, fun hne => absurd rfl hne, by omega⟩, by omega⟩
    · rw [Nat.pow_succ]
      omega
    · rw [Nat.pow_succ]
      omega
  · rw [if_neg hsmall, Nat.mod_eq_of_lt (by omega)]
    have hb : (b + 1) * sdsMaxPrealloc ≤ len + n := by
      by_cases hb : b = 0
      · rw [hb]
        omega
      · exact (h.added hb).trans hcap.le
    have hdoubled := h.doubled
    refine ⟨a, b + 1, ⟨by omega, by omega, fun _ => ?_, hb⟩, by omega⟩
    rw [Nat.add_mul (b + 1), Nat.one_mul]
    omega

theorem Grown.bound {a b len cap : ℕ} (h : Grown a b len cap) :
    a + b ≤ Nat.log 2 len + 1 + len / sdsMaxPrealloc := by
  have hb : b ≤ len / sdsMaxPrealloc := (Nat.le_div_iff_mul_le (by decide)).2 h.added_len
  have ha : a ≤ Nat.log 2 len + 1 := by
    have hdoubled := h.doubled_len
    cases a with
    | zero => exact Nat.zero_le _
    | succ a =>
      rw [Nat.pow_succ] at hdoubled
      exact Nat.succ_le_succ (Nat.le_log_of_pow_le Nat.one_lt_two (by omega))
  omega

theorem makeRoomFor_length {s : Sds} {c : List UInt8} (h : SdsIs s c) (fill : ℕ → UInt8) {n : ℕ}
    (hn : c.length + n + sdsMaxPrealloc < 2 ^ 31) :
    (sdsMakeRoomFor fill s n).buf.length = if n ≤ sdsavail s then s.buf.length else sdsNewlen c.length n + 1 := by
  have hlen := h.sdslen
  have hbound := (newlen_bound hn).2
  rw [sdsMakeRoomFor, hlen]
  by_cases hroom : n ≤ sdsavail s
  · rw [if_pos hroom, if_pos hroom]
  · rw [if_neg hroom, if_neg hroom]
    dsimp only [sdshdrSize]
    rw [zrealloc_length]
    omega

theorem catlen_length {s s' : Sds} {fill : ℕ → UInt8} {t : List UInt8} (h : sdscatlen fill s t = some s') :
    s'.buf.length = (sdsMakeRoomFor fill s t.length).buf.length := by
  rw [sdscatlen, Option.bind_eq_bind] at h
  obtain ⟨b, hb, h⟩ := Option.bind_eq_some_iff.1 h
  obtain ⟨b', hb', h⟩ := Option.bind_eq_some_iff.1 h
  cases h
  exact (poke_length hb').trans (poke_length hb)

theorem appendCounted_run {s : Sds} {c : List UInt8} {a b : ℕ} (h : SdsIs s c)
    (hgrown : Grown a b c.length (s.buf.length - 1)) (ts : List (List UInt8 × (ℕ → UInt8)))
    (hlt : (c ++ (ts.map Prod.fst).flatten).length + sdsMaxPrealloc < 2 ^ 31) :
    ∃ s' a' b', Lts.run appendCounted (s, a + b) ts = some (s', a' + b') ∧
      SdsIs s' (c ++ (ts.map Prod.fst).flatten) ∧
      Grown a' b' (c ++ (ts.map Prod.fst).flatten).length (s'.buf.length - 1) := by
  induction ts generalizing s c a b with
  | nil =>
    rw [List.map_nil, List.flatten_nil, List.append_nil]
    exact ⟨s, a, b, rfl, h, hgrown⟩
  | cons l ts ih =>
    obtain ⟨t, fill⟩ := l
    rw [List.map_cons, List.flatten_cons, ← List.append_assoc] at hlt ⊢
    dsimp only at hlt ⊢
    have ht : c.length + t.length + sdsMaxPrealloc < 2 ^ 31 := by
      rw [List.length_append, List.length_append] at hlt
      omega
    obtain ⟨s', hcat, hs'⟩ := h.catlen fill ht
    have hblock := catlen_length hcat
    rw [makeRoomFor_length h fill ht] at hblock
    have hheader := h.header.2.1
    rw [h.sdslen] at hheader
    -- the block is moved, or there was room for the bytes
    obtain ⟨a', b', hgrown', hcount⟩ : ∃ a' b', Grown a' b' (c ++ t).length (s'.buf.length - 1) ∧
        a' + b' = if t.length ≤ sdsavail s then a + b else a + b + 1 := by
      rw [List.length_append]
      by_cases hroom : t.length ≤ sdsavail s
      · rw [if_pos hroom] at hblock ⊢
        rw [hblock]
        exact ⟨a, b, hgrown.more (Nat.le_add_right _ _), rfl⟩
      · rw [if_neg hroom] at hblock ⊢
        rw [hblock, Nat.add_sub_cancel]
        exact hgrown.move (by omega) ht
    obtain ⟨s'', a'', b'', hrun, hs'', hgrown''⟩ := ih hs' hgrown' hlt
    refine ⟨s'', a'', b'', Lts.run_cons.2 ⟨(s', a' + b'), ?_, hrun⟩, hs'', hgrown''⟩
    rw [appendCounted, hcat, hcount]
    rfl

/-- **Appending is cheap**: whatever the pieces are, a string of `n` characters was moved at most about `log 2
n` times, and once more for each `sdsMaxPrealloc` characters. -/
theorem appends_few_moves (ts : List (List UInt8 × (ℕ → UInt8)))
    (hlt : ((ts.map Prod.fst).flatten).length + sdsMaxPrealloc < 2 ^ 31) :
    ∃ s k, Lts.run appendCounted (sdsempty, 0) ts = some (s, k) ∧ s.content = (ts.map Prod.fst).flatten ∧
      k ≤ Nat.log 2 (sdslen s) + 1 + sdslen s / sdsMaxPrealloc := by
  have hempty : SdsIs sdsempty [] := ⟨[], rfl, by decide⟩
  have hgrown : Grown 0 0 ([] : List UInt8).length (sdsempty.buf.length - 1) :=
    ⟨by decide, by decide, by simp, by decide⟩
  obtain ⟨s, a, b, hrun, hs, hend⟩ := appendCounted_run hempty hgrown ts hlt
  rw [List.nil_append] at hs hend
  refine ⟨s, a + b, hrun, hs.content, ?_⟩
  rw [hs.sdslen]
  exact hend.bound

theorem appends_few_moves_three :
    ∃ s k, Lts.run appendCounted (sdsempty, 0) [([1], fun _ => 7), ([2], fun _ => 7), ([3], fun _ => 7)] =
      some (s, k) ∧
      s.content = [1, 2, 3] ∧ k ≤ Nat.log 2 (sdslen s) + 1 + sdslen s / sdsMaxPrealloc :=
  appends_few_moves [([1], fun _ => 7), ([2], fun _ => 7), ([3], fun _ => 7)] (by decide)

end Spigeon
