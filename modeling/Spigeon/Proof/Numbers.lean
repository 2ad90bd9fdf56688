import Spigeon.Lib.Decimal
import Spigeon.Proof.SdsOps
import Spigeon.Spec.Numbers

/-!
# Numbers as texts

`string2ll` accepts a text exactly if `ll2string` and `sdsfromlonglong` write it, and reads the number back.
-/

namespace Spigeon

open CInt CStr Decimal Printf

/-- The text of a number, with a sign if it is negative. -/
def decimalText (v : ℤ) : List UInt8 :=
  if v < 0 then 45 :: numeral .decimal v.natAbs else numeral .decimal v.natAbs

/-! ### Writing -/

theorem digit_eq {d : ℕ} (h : d < 10) : UInt8.ofNat (48 + d) = digit d := by
  interval_cases d <;> rfl

/-- The digits are stored from the end. -/
theorem putDigits_eq {room v : ℕ} {text : List UInt8} (h : (numeral .decimal v).length ≤ room) :
    putDigits room v text = some (numeral .decimal v ++ text) := by
  induction room generalizing v text with
  | zero => exact absurd (List.length_eq_zero_iff.1 (Nat.le_zero.1 h)) (numeral_ne_nil v)
  | succ room ih =>
    have hdigit : UInt8.ofNat (48 + v % 10) = digit (v % 10) := digit_eq (Nat.mod_lt v (by decide))
    rw [putDigits, hdigit]
    by_cases hone : v < 10
    · rw [if_pos (Nat.div_eq_of_lt hone), numeral_single hone, Nat.mod_eq_of_lt hone]
      rfl
    · rw [numeral_snoc (Nat.le_of_not_lt hone), List.length_append, List.length_singleton] at h
      rw [if_neg (by omega), ih (by omega), numeral_snoc (Nat.le_of_not_lt hone), List.append_assoc]
      rfl

theorem llText_eq {v : ℤ} (hlo : -2 ^ 63 < v) (hhi : v < 2 ^ 63) :
    llText v = some (decimalText v) ∧ (decimalText v).length ≤ 20 := by
  have hlen : (numeral .decimal v.natAbs).length ≤ 19 := by
    refine length_numeral_le (by decide) (lt_of_lt_of_le (show v.natAbs < 2 ^ 63 by omega) (by decide))
  rw [llText, decimalText, if_neg (by omega), putDigits_eq (by omega), List.append_nil, Option.bind_some]
  by_cases hneg : v < 0
  · rw [if_pos hneg, if_pos (by omega), if_pos hneg, List.length_cons]
    exact ⟨rfl, by omega⟩
  · rw [if_neg hneg, if_neg hneg]
    exact ⟨rfl, by omega⟩

/-! ### Reading -/

/-- The value of digits behind a number. -/
def behind (v : ℕ) (ds : List UInt8) : ℕ := ds.foldl (fun n b => 10 * n + (b.toNat - 48)) v

theorem le_behind (v : ℕ) (ds : List UInt8) : v ≤ behind v ds := by
  induction ds generalizing v with
  | nil => exact le_rfl
  | cons b ds ih =>
    have hstep := ih (10 * v + (b.toNat - 48))
    rw [behind, List.foldl_cons]
    exact le_trans (by omega) hstep

theorem isDigit_byte {b : UInt8} : isDigit b = true ↔ 48 ≤ b ∧ b ≤ 57 := by
  rw [isDigit, Bool.and_eq_true, decide_eq_true_iff, decide_eq_true_iff]

/-- The loop of `string2ll` reads digits as long as their value is below `2 ^ 64`. -/
theorem takeDigits_all {v w : ℕ} {ds : List UInt8} (hv : v ≤ ullongMax) :
    takeDigits v ds = some (w, []) ↔ (∀ b ∈ ds, isDigit b = true) ∧ behind v ds = w ∧ w ≤ ullongMax := by
  induction ds generalizing v with
  | nil =>
    rw [takeDigits, Option.some.injEq, Prod.mk.injEq]
    exact ⟨fun h => ⟨by simp, h.1, h.1 ▸ hv⟩, fun h => ⟨h.2.1, rfl⟩⟩
  | cons b ds ih =>
    rw [takeDigits, List.forall_mem_cons]
    by_cases hb : isDigit b = true
    · have hdigit := value_lt hb
      rw [value] at hdigit
      have hnext : behind v (b :: ds) = behind (v * 10 + (b.toNat - 48)) ds := by
        rw [behind, List.foldl_cons, Nat.mul_comm]
        rfl
      have hmono := le_behind (v * 10 + (b.toNat - 48)) ds
      have hmax : 9 ≤ ullongMax := by decide
      rw [if_pos (isDigit_byte.1 hb), hnext]
      -- both tests are for the next value
      by_cases hover : v * 10 + (b.toNat - 48) ≤ ullongMax
      · rw [if_neg (by omega), if_neg (by omega), ih hover]
        exact and_congr_left fun _ => ⟨fun h => ⟨hb, h⟩, fun h => h.2⟩
      · have hnone : (if v > ullongMax / 10 then none else if v * 10 > ullongMax - (b.toNat - 48) then none
            else takeDigits (v * 10 + (b.toNat - 48)) ds) = none := by
          by_cases hten : v > ullongMax / 10
          · rw [if_pos hten]
          · rw [if_neg hten, if_pos (by omega)]
        rw [hnone]
        refine iff_of_false (by simp) fun h => ?_
        omega
    · rw [if_neg fun h => hb (isDigit_byte.2 h)]
      exact iff_of_false (by simp) fun h => hb h.1.1

theorem digitsVal_cons (b : UInt8) (ds : List UInt8) : digitsVal (b :: ds) = behind (b.toNat - 48) ds := by
  rw [digitsVal, List.foldl_cons, Nat.mul_zero, Nat.zero_add]
  rfl

/-- A text of digits that does not begin with zero is a numeral of a number that is not zero. -/
theorem isNumeral_cons {b : UInt8} {ds : List UInt8} (hb : 49 ≤ b ∧ b ≤ 57) (hds : ∀ c ∈ ds, isDigit c = true) :
    IsNumeral (b :: ds) := by
  refine ⟨?_, List.cons_ne_nil _ _, ?_⟩
  · rw [List.forall_mem_cons]
    exact ⟨isDigit_byte.2 ⟨UInt8.le_trans (by decide) hb.1, hb.2⟩, hds⟩
  · intro hhead
    rw [List.head?_cons, Option.some.injEq] at hhead
    rw [hhead] at hb
    exact absurd hb.1 (by decide)

/-- The first digit of the numeral of a number that is not zero. -/
theorem numeral_head {n : ℕ} (hn : n ≠ 0) {b : UInt8} {p : List UInt8} (h : b :: p = numeral .decimal n) :
    49 ≤ b ∧ b ≤ 57 := by
  have hnum := isNumeral_numeral n
  rw [← h] at hnum
  have hdigit := isDigit_iff.1 (hnum.digits b List.mem_cons_self)
  have hne : b ≠ 48 := by
    rintro rfl
    have hval := digitsVal_numeral n
    rw [← h, hnum.lead rfl] at hval
    exact hn hval.symm
  have hne' : b.toNat ≠ 48 := fun h48 => hne (UInt8.toNat_inj.1 h48)
  rw [UInt8.le_iff_toNat_le, UInt8.le_iff_toNat_le]
  exact ⟨show 49 ≤ b.toNat by omega, hdigit.2⟩

theorem takeNumber_iff {s : List UInt8} {n : ℕ} :
    takeNumber s = some n ↔ n ≠ 0 ∧ n ≤ ullongMax ∧ s = numeral .decimal n := by
  cases s with
  | nil => exact iff_of_false (by simp [takeNumber]) fun h => numeral_ne_nil n h.2.2.symm
  | cons b p =>
    have hfirst : b.toNat - 48 ≤ ullongMax := le_trans (Nat.sub_le _ _) (le_trans b.toNat_lt.le (by decide))
    have hread : takeNumber (b :: p) = some n ↔ (49 ≤ b ∧ b ≤ 57) ∧
        takeDigits (b.toNat - 48) p = some (n, []) := by
      rw [takeNumber]
      by_cases hb : 49 ≤ b ∧ b ≤ 57
      · rw [if_pos hb, Option.bind_eq_some_iff]
        constructor
        · rintro ⟨⟨v, rest⟩, hdigits, hend⟩
          rw [Option.ite_none_right_eq_some, Option.some.injEq] at hend
          obtain ⟨rfl, rfl⟩ := hend
          exact ⟨hb, hdigits⟩
        · rintro ⟨-, hdigits⟩
          exact ⟨_, hdigits, if_pos rfl⟩
      · rw [if_neg hb]
        exact iff_of_false (by simp) fun h => hb h.1
    rw [hread, takeDigits_all hfirst, ← digitsVal_cons]
    constructor
    · rintro ⟨hb, hdigits, hval, hmax⟩
      have hnum := isNumeral_cons hb hdigits
      refine ⟨?_, hmax, ?_⟩
      · have hpos := hnum.value_pos fun h => absurd (List.head_eq_of_cons_eq h ▸ hb.1) (by decide)
        omega
      · rw [← hval, numeral_digitsVal hnum]
    · rintro ⟨hn, hmax, hs⟩
      have hnum := isNumeral_numeral n
      rw [← hs] at hnum
      refine ⟨numeral_head hn hs, fun c hc => hnum.digits c (List.mem_cons_of_mem _ hc), ?_, hmax⟩
      rw [hs, digitsVal_numeral]

theorem decimalText_neg {n : ℕ} (hn : n ≠ 0) : decimalText (-n) = 45 :: numeral .decimal n := by
  rw [decimalText, if_pos (by omega), Int.natAbs_neg, Int.natAbs_natCast]

theorem decimalText_nat (n : ℕ) : decimalText n = numeral .decimal n := by
  rw [decimalText, if_neg (by omega), Int.natAbs_natCast]

theorem numeral_head_ne_minus (n : ℕ) : (numeral .decimal n).head? ≠ some 45 := by
  intro h
  exact absurd (isDigit_of_mem_numeral (List.mem_of_mem_head? h)) (by decide)

/-- A number is zero, negative or positive. -/
theorem sign_cases (v : ℤ) : v = 0 ∨ (∃ n : ℕ, n ≠ 0 ∧ v = -n) ∨ ∃ n : ℕ, n ≠ 0 ∧ v = n := by
  rcases lt_trichotomy v 0 with h | h | h
  · exact Or.inr (Or.inl ⟨v.natAbs, by omega, by omega⟩)
  · exact Or.inl h
  · exact Or.inr (Or.inr ⟨v.natAbs, by omega, by omega⟩)

/-- `string2ll` on the three forms of a text. -/
theorem string2ll_minus {s : List UInt8} {v : ℤ} :
    string2ll (45 :: s) = some v ↔ ∃ n : ℕ, n ≠ 0 ∧ n ≤ 2 ^ 63 ∧ s = numeral .decimal n ∧ v = -n := by
  rw [string2ll, if_neg (by simp), if_pos List.head?_cons, List.tail_cons, Option.bind_eq_some_iff]
  constructor
  · rintro ⟨n, hread, hv⟩
    obtain ⟨hn, -, hs⟩ := takeNumber_iff.1 hread
    rw [Option.ite_none_left_eq_some, Option.some.injEq] at hv
    refine ⟨n, hn, by omega, hs, ?_⟩
    rw [← hv.2, toInt64_of_range (by omega) (by omega)]
  · rintro ⟨n, hn, hmax, hs, rfl⟩
    refine ⟨n, takeNumber_iff.2 ⟨hn, le_trans hmax (by decide), hs⟩, ?_⟩
    rw [if_neg (by omega), toInt64_of_range (by omega) (by omega)]

theorem string2ll_plain {s : List UInt8} {v : ℤ} (h0 : s ≠ [48]) (hminus : s.head? ≠ some 45) :
    string2ll s = some v ↔ ∃ n : ℕ, n ≠ 0 ∧ n < 2 ^ 63 ∧ s = numeral .decimal n ∧ v = n := by
  rw [string2ll, if_neg h0, if_neg hminus, Option.bind_eq_some_iff]
  constructor
  · rintro ⟨n, hread, hv⟩
    obtain ⟨hn, -, hs⟩ := takeNumber_iff.1 hread
    rw [Option.ite_none_left_eq_some, Option.some.injEq] at hv
    exact ⟨n, hn, by omega, hs, hv.2.symm⟩
  · rintro ⟨n, hn, hmax, hs, rfl⟩
    exact ⟨n, takeNumber_iff.2 ⟨hn, le_trans hmax.le (by decide), hs⟩, if_neg (by omega)⟩

/-- `string2ll` reads the text of each number. -/
theorem string2ll_decimalText {v : ℤ} (hlo : -2 ^ 63 ≤ v) (hhi : v < 2 ^ 63) :
    string2ll (decimalText v) = some v := by
  rcases sign_cases v with rfl | ⟨n, hn, rfl⟩ | ⟨n, hn, rfl⟩
  · rfl
  · rw [decimalText_neg hn]
    exact string2ll_minus.2 ⟨n, hn, by omega, rfl, rfl⟩
  · rw [decimalText_nat]
    refine (string2ll_plain (fun h => hn ?_) (numeral_head_ne_minus n)).2 ⟨n, hn, by omega, rfl, rfl⟩
    rw [← digitsVal_numeral n, h]
    rfl

/-- What it reads is the text of the number. -/
theorem eq_decimalText_of_string2ll {s : List UInt8} {v : ℤ} (h : string2ll s = some v) : s = decimalText v := by
  by_cases h0 : s = [48]
  · rw [string2ll, if_pos h0, Option.some.injEq] at h
    rw [h0, ← h]
    rfl
  by_cases hminus : s.head? = some 45
  · obtain ⟨p, rfl⟩ : ∃ p, s = 45 :: p := ⟨s.tail, List.eq_cons_of_mem_head? hminus⟩
    obtain ⟨n, hn, -, hs, rfl⟩ := string2ll_minus.1 h
    rw [decimalText_neg hn, hs]
  · obtain ⟨n, -, -, hs, rfl⟩ := (string2ll_plain h0 hminus).1 h
    rw [decimalText_nat, hs]

/-! ### Round trip -/

theorem decimalText_ne_zero (v : ℤ) : 0 ∉ decimalText v := by
  have hdigits : 0 ∉ numeral .decimal v.natAbs := fun h => absurd (isDigit_of_mem_numeral h) (by decide)
  rw [decimalText]
  split
  · rw [List.mem_cons]
    rintro (h | h)
    · exact absurd h (by decide)
    · exact hdigits h
  · exact hdigits

theorem ll2string_eq {s : List UInt8} {len : ℕ} (hpos : 0 < len) (hlen : len ≤ s.length) {v : ℤ}
    {text : List UInt8} (htext : llText v = some text) :
    ll2string s len v =
      some (text.take (len - 1) ++ 0 :: s.drop ((text.take (len - 1)).length + 1),
        (text.take (len - 1)).length) := by
  have hl : (if text.length + 1 > len then len - 1 else text.length) = (text.take (len - 1)).length := by
    rw [List.length_take]
    split <;> omega
  have hcut : text.take (text.take (len - 1)).length = text.take (len - 1) :=
    (List.prefix_iff_eq_take.1 (List.take_prefix _ _)).symm
  have hshort : (text.take (len - 1)).length < s.length := by
    rw [List.length_take]
    omega
  obtain ⟨b, hpoke, hpoke'⟩ := poke_string hshort
  rw [ll2string, if_neg (by omega), htext]
  simp only [bind, Option.bind, hl, hcut, hpoke, hpoke']

/-- **Numbers and their texts**: each number but the least one has one text. It is the only one that `string2ll`
reads as the number, `sdsfromlonglong` makes a string of it, and `ll2string` stores as much of it as fits. -/
theorem number_round {v : ℤ} (hlo : -2 ^ 63 < v) (hhi : v < 2 ^ 63) {buf : List UInt8} {len : ℕ} (hpos : 0 < len)
    (hlen : len ≤ buf.length) :
    ∃ text, (∀ s, string2ll s = some v ↔ s = text) ∧ (sdsfromlonglong v).map Sds.content = some text ∧
      ∃ b, ll2string buf len v = some (b, (cStr b).length) ∧ cStr b = text.take (len - 1) ∧
        b.length = buf.length := by
  obtain ⟨htext, hshort⟩ := llText_eq hlo hhi
  have hwrite := ll2string_eq hpos hlen htext
  set t := (decimalText v).take (len - 1) with ht
  have htlen : t.length < buf.length := by
    rw [ht, List.length_take]
    omega
  have hcstr : cStr (t ++ 0 :: buf.drop (t.length + 1)) = t :=
    cStr_append_nul _ fun h => decimalText_ne_zero v (List.mem_of_mem_take h)
  refine ⟨decimalText v, fun s => ⟨eq_decimalText_of_string2ll, ?_⟩, ?_, t ++ 0 :: buf.drop (t.length + 1), ?_,
    hcstr, ?_⟩
  · rintro rfl
    exact string2ll_decimalText hlo.le hhi
  · obtain ⟨s, hnew, hs⟩ := SdsIs.newlen (decimalText v) le_rfl (by omega)
    rw [List.take_length] at hs
    rw [sdsfromlonglong, htext, Option.bind_some, hnew, Option.map_some, hs.content]
  · rw [hcstr, hwrite]
  · rw [List.length_append, List.length_cons, List.length_drop]
    omega

/-- A buffer that is too short for the number. -/
theorem number_round_cut :
    ∃ text, (∀ s, string2ll s = some (-1234) ↔ s = text) ∧ (sdsfromlonglong (-1234)).map Sds.content = some text ∧
      ∃ b, ll2string [7, 7, 7, 7, 7] 4 (-1234) = some (b, (cStr b).length) ∧ cStr b = text.take 3 ∧
        b.length = 5 :=
  number_round (by decide) (by decide) (by decide) (by decide)

end Spigeon
