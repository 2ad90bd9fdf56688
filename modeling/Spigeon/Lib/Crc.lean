import Mathlib.Data.List.GetD
import Mathlib.Logic.Function.Iterate

/-!
# Cyclic redundancy checks

A register of `w` bits that is shifted to the right, with a polynomial that is added when a one falls out
(`shift`). A message is fed bit by bit, the low bit of each byte first (`feed`).

* `shift_xor`: the register is linear in exclusive or.
* `shifts_of_low`: bits that do not reach the end are only moved.
* `shifts_split`: what falls out and what is moved, so that tables of the former are enough.
* `feed_eq_shifts`: a message of at most `w` bits is one word that is added before as many shifts.
* `feed_burst`: two messages that differ only within `w` bits leave different registers, if the polynomial has
  its highest bit, so that no shift loses anything.
-/

namespace Crc

variable {w : ℕ} (poly : BitVec w)

/-- One shift of the register. -/
def shift (r : BitVec w) : BitVec w := (r >>> 1) ^^^ if r.getLsbD 0 then poly else 0#w

def shifts (n : ℕ) (r : BitVec w) : BitVec w := (shift poly)^[n] r

/-- A bit at the end of the register. -/
def bit (w : ℕ) (b : Bool) : BitVec w := if b then 1#w else 0#w

/-- A message, bit by bit. -/
def feed (r : BitVec w) (bs : List Bool) : BitVec w := bs.foldl (fun r b => shift poly (r ^^^ bit w b)) r

/-! ### Shifts -/

theorem shift_xor (a b : BitVec w) : shift poly (a ^^^ b) = shift poly a ^^^ shift poly b := by
  have hadd : (if (a ^^^ b).getLsbD 0 then poly else 0#w) =
      (if a.getLsbD 0 then poly else 0#w) ^^^ if b.getLsbD 0 then poly else 0#w := by
    rw [BitVec.getLsbD_xor]
    cases a.getLsbD 0 <;> cases b.getLsbD 0 <;> simp
  unfold shift
  rw [hadd, BitVec.ushiftRight_xor_distrib]
  ac_rfl

theorem shifts_zero (r : BitVec w) : shifts poly 0 r = r := rfl

theorem shifts_succ (n : ℕ) (r : BitVec w) : shifts poly (n + 1) r = shifts poly n (shift poly r) := rfl

theorem shifts_add (m n : ℕ) (r : BitVec w) : shifts poly (m + n) r = shifts poly m (shifts poly n r) :=
  Function.iterate_add_apply ..

theorem shifts_xor (n : ℕ) (a b : BitVec w) : shifts poly n (a ^^^ b) = shifts poly n a ^^^ shifts poly n b := by
  induction n generalizing a b with
  | zero => rfl
  | succ n ih => rw [shifts_succ, shift_xor, ih, shifts_succ, shifts_succ]

theorem shift_of_low {r : BitVec w} (h : r.getLsbD 0 = false) : shift poly r = r >>> 1 := by
  rw [shift, h]
  exact BitVec.xor_zero

/-- Bits that do not reach the end are only moved. -/
theorem shifts_of_low {n : ℕ} {r : BitVec w} (h : ∀ i < n, r.getLsbD i = false) : shifts poly n r = r >>> n := by
  induction n generalizing r with
  | zero => rw [shifts_zero, BitVec.ushiftRight_zero]
  | succ n ih =>
    have hlow : ∀ i < n, (r >>> 1).getLsbD i = false := by
      intro i hi
      rw [BitVec.getLsbD_ushiftRight]
      exact h (1 + i) (by omega)
    rw [shifts_succ, shift_of_low poly (h 0 (by omega)), ih hlow, ← BitVec.shiftRight_add, Nat.add_comm]

/-- The last bits of the register fall out in the first shifts, and the others are moved. -/
theorem shifts_split (m n : ℕ) {a r : BitVec w} (hlow : ∀ i < n, a.getLsbD i = r.getLsbD i) (ha : a >>> n = 0#w) :
    shifts poly (m + n) r = shifts poly (m + n) a ^^^ shifts poly m (r >>> n) := by
  have hhigh : shifts poly n (a ^^^ r) = r >>> n := by
    have hzero : ∀ i < n, (a ^^^ r).getLsbD i = false := by
      intro i hi
      rw [BitVec.getLsbD_xor, hlow i hi, Bool.xor_self]
    rw [shifts_of_low poly hzero, BitVec.ushiftRight_xor_distrib, ha, BitVec.zero_xor]
  calc shifts poly (m + n) r
      = shifts poly (m + n) (a ^^^ (a ^^^ r)) := by rw [← BitVec.xor_assoc, BitVec.xor_self, BitVec.zero_xor]
    _ = shifts poly (m + n) a ^^^ shifts poly (m + n) (a ^^^ r) := shifts_xor ..
    _ = shifts poly (m + n) a ^^^ shifts poly m (r >>> n) := by rw [shifts_add poly m n (a ^^^ r), hhigh]

/-! ### Messages -/

theorem feed_nil (r : BitVec w) : feed poly r [] = r := rfl

theorem feed_cons (r : BitVec w) (b : Bool) (bs : List Bool) :
    feed poly r (b :: bs) = feed poly (shift poly (r ^^^ bit w b)) bs := rfl

theorem feed_append (r : BitVec w) (bs bs' : List Bool) :
    feed poly r (bs ++ bs') = feed poly (feed poly r bs) bs' := List.foldl_append ..

/-- What was different in the register is shifted through. -/
theorem feed_xor (r d : BitVec w) (bs : List Bool) :
    feed poly (r ^^^ d) bs = feed poly r bs ^^^ shifts poly bs.length d := by
  induction bs generalizing r d with
  | nil => rfl
  | cons b bs ih =>
    have hmove : r ^^^ d ^^^ bit w b = r ^^^ bit w b ^^^ d := by ac_rfl
    rw [feed_cons, hmove, shift_xor, ih, feed_cons, List.length_cons, shifts_succ]

/-- The bits of a message as a word, the first one at the end. -/
def word (w : ℕ) : List Bool → BitVec w
  | [] => 0#w
  | b :: bs => bit w b ^^^ (word w bs <<< 1)

theorem getLsbD_bit (b : Bool) (i : ℕ) : (bit w b).getLsbD i = (decide (i < w) && decide (i = 0) && b) := by
  cases b with
  | false => simp [bit]
  | true => by_cases hi : i = 0 <;> simp [bit, hi, BitVec.getLsbD_one]

theorem getLsbD_word (bs : List Bool) (i : ℕ) : (word w bs).getLsbD i = (decide (i < w) && bs.getD i false) := by
  induction bs generalizing i with
  | nil => simp [word]
  | cons b bs ih =>
    rw [word, BitVec.getLsbD_xor, getLsbD_bit, BitVec.getLsbD_shiftLeft, ih]
    cases i with
    | zero => simp
    | succ i =>
      by_cases hi : i + 1 < w
      · have hlt : i < w := by omega
        simp [hi, hlt]
      · simp [hi]

theorem word_append (bs bs' : List Bool) : word w (bs ++ bs') = word w bs ^^^ (word w bs' <<< bs.length) := by
  induction bs with
  | nil => rw [List.nil_append, word, List.length_nil, BitVec.shiftLeft_zero, BitVec.zero_xor]
  | cons b bs ih =>
    rw [List.cons_append, word, ih, word, List.length_cons, BitVec.shiftLeft_xor_distrib, BitVec.xor_assoc,
      BitVec.shiftLeft_add]

/-- **A message of at most `w` bits is one word.** -/
theorem feed_eq_shifts (r : BitVec w) {bs : List Bool} (h : bs.length ≤ w) :
    feed poly r bs = shifts poly bs.length (r ^^^ word w bs) := by
  induction bs generalizing r with
  | nil => rw [feed_nil, word, BitVec.xor_zero]; rfl
  | cons b bs ih =>
    rw [List.length_cons] at h
    -- the rest of the message has room in the word
    have hback : (word w bs <<< 1) >>> 1 = word w bs := by
      refine BitVec.eq_of_getLsbD_eq fun i hi => ?_
      rw [BitVec.getLsbD_ushiftRight, BitVec.getLsbD_shiftLeft]
      by_cases hlast : 1 + i < w
      · simp [hlast]
      · have hout : (word w bs).getLsbD i = false := by
          rw [getLsbD_word, List.getD_eq_default _ _ (by omega), Bool.and_false]
        simp [hlast, hout]
    have hlow : (word w bs <<< 1).getLsbD 0 = false := by simp
    have hmove : r ^^^ (bit w b ^^^ word w bs <<< 1) = (r ^^^ bit w b) ^^^ word w bs <<< 1 := by ac_rfl
    calc feed poly r (b :: bs)
        = shifts poly bs.length (shift poly (r ^^^ bit w b) ^^^ word w bs) := ih _ (by omega)
      _ = shifts poly bs.length (shift poly (r ^^^ bit w b) ^^^ shift poly (word w bs <<< 1)) := by
          rw [shift_of_low poly hlow, hback]
      _ = shifts poly bs.length (shift poly (r ^^^ word w (b :: bs))) := by rw [← shift_xor, ← hmove, word]

/-! ### Bursts -/

variable {poly}

/-- With its highest bit in the polynomial, a shift can be undone. -/
theorem shift_eq_zero (hpoly : poly.getLsbD (w - 1) = true) {r : BitVec w} (h : shift poly r = 0#w) :
    r = 0#w := by
  have hbit : ∀ i, (shift poly r).getLsbD i = false := by
    intro i
    rw [h]
    exact BitVec.getLsbD_zero
  have hw : 0 < w := by
    by_contra hw
    rw [BitVec.getLsbD_of_ge _ _ (by omega)] at hpoly
    cases hpoly
  have htop : (r >>> 1).getLsbD (w - 1) = false := by
    rw [BitVec.getLsbD_ushiftRight]
    exact BitVec.getLsbD_of_ge _ _ (by omega)
  -- the highest bit says what fell out
  have hlow : r.getLsbD 0 = false := by
    have hlast := hbit (w - 1)
    rw [shift, BitVec.getLsbD_xor, htop] at hlast
    by_contra hone
    rw [Bool.not_eq_false] at hone
    rw [hone, if_pos rfl, hpoly] at hlast
    cases hlast
  refine BitVec.eq_of_getLsbD_eq fun i hi => ?_
  rw [BitVec.getLsbD_zero]
  cases i with
  | zero => exact hlow
  | succ i =>
    have hnext := hbit i
    rw [shift_of_low poly hlow, BitVec.getLsbD_ushiftRight, Nat.add_comm] at hnext
    exact hnext

theorem shifts_eq_zero (hpoly : poly.getLsbD (w - 1) = true) {n : ℕ} {r : BitVec w} (h : shifts poly n r = 0#w) :
    r = 0#w := by
  induction n generalizing r with
  | zero => exact h
  | succ n ih => exact shift_eq_zero hpoly (ih h)

theorem shifts_injective (hpoly : poly.getLsbD (w - 1) = true) (n : ℕ) : Function.Injective (shifts poly n) := by
  intro a b hab
  apply BitVec.xor_eq_zero_iff.1
  apply shifts_eq_zero hpoly (n := n)
  rw [shifts_xor]
  exact BitVec.xor_eq_zero_iff.2 hab

theorem feed_injective (hpoly : poly.getLsbD (w - 1) = true) (bs : List Bool) :
    Function.Injective (feed poly · bs) := by
  intro a b hab
  have hsplit : a = b ^^^ (b ^^^ a) := by rw [← BitVec.xor_assoc, BitVec.xor_self, BitVec.zero_xor]
  have hfed : feed poly b bs ^^^ shifts poly bs.length (b ^^^ a) = feed poly b bs ^^^ 0#w := by
    rw [← feed_xor, ← hsplit, BitVec.xor_zero]
    exact hab
  apply (BitVec.xor_eq_zero_iff.1 _).symm
  exact shifts_eq_zero hpoly ((BitVec.xor_right_inj _).1 hfed)

theorem word_injective {bs bs' : List Bool} (hlen : bs.length = bs'.length) (hw : bs.length ≤ w)
    (h : word w bs = word w bs') : bs = bs' := by
  refine List.ext_getElem hlen fun i hi hi' => ?_
  have hbit : (word w bs).getLsbD i = (word w bs').getLsbD i := by rw [h]
  rw [getLsbD_word, getLsbD_word, decide_eq_true (Nat.lt_of_lt_of_le hi hw), Bool.true_and, Bool.true_and,
    List.getD_eq_getElem _ _ hi, List.getD_eq_getElem _ _ hi'] at hbit
  exact hbit

/-- **A burst of at most `w` bits is seen**, whatever comes before and behind it. -/
theorem feed_burst (hpoly : poly.getLsbD (w - 1) = true) {bs bs' : List Bool} (hlen : bs.length = bs'.length)
    (hw : bs.length ≤ w) (hne : bs ≠ bs') (r : BitVec w) (pre post : List Bool) :
    feed poly r (pre ++ bs ++ post) ≠ feed poly r (pre ++ bs' ++ post) := by
  intro heq
  rw [feed_append, feed_append poly r (pre ++ bs')] at heq
  have hbehind := feed_injective hpoly post heq
  rw [feed_append, feed_append] at hbehind
  -- both bursts are added to the same register
  generalize feed poly r pre = x at hbehind
  rw [feed_eq_shifts poly x hw, feed_eq_shifts poly x (hlen ▸ hw), ← hlen] at hbehind
  have hwords := (BitVec.xor_right_inj x).1 (shifts_injective hpoly _ hbehind)
  exact hne (word_injective hlen hw hwords)

end Crc
