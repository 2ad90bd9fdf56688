import Mathlib.Data.List.Basic
import Spigeon.Lib.Lists

/-!
# Serving in turn

Counters are served one after the other, and after the last one it is the first one's turn
again. `Turns counts next` is the invariant: those before `next` have been served once
more than the others.

* `Turns.serve`: serving the next one keeps it.
* `Turns.balanced`: any two counters differ by at most one.
-/

namespace RoundRobin

/-- `next` is a valid position, and the positions before it have one more. -/
structure Turns (counts : List ℕ) (next : ℕ) : Prop where
  next_lt : next < counts.length
  rounds : ∃ q, ∀ i n, counts[i]? = some n → n = if i < next then q + 1 else q

variable {counts : List ℕ} {next n : ℕ}

theorem turns_zero (h : 0 < counts.length) (hzero : ∀ n ∈ counts, n = 0) : Turns counts 0 := by
  refine ⟨h, 0, ?_⟩
  intro i n hi
  rw [if_neg (Nat.not_lt_zero i)]
  exact hzero n (List.mem_of_getElem? hi)

theorem Turns.serve (h : Turns counts next) (hn : counts[next]? = some n) :
    Turns (counts.set next (n + 1)) ((next + 1) % counts.length) := by
  have hlt := h.next_lt
  obtain ⟨q, hq⟩ := h.rounds
  have hnq : n = q := by
    have := hq next n hn
    rwa [if_neg (lt_irrefl next)] at this
  refine ⟨by rw [List.length_set]; exact Nat.mod_lt _ (by omega), ?_⟩
  by_cases hlast : next + 1 = counts.length
  · -- the round is complete
    refine ⟨q + 1, ?_⟩
    intro i m hi
    rw [hlast, Nat.mod_self, if_neg (Nat.not_lt_zero i)]
    rcases List.set_cases hi with ⟨-, hm⟩ | ⟨hne, hold⟩
    · rw [hm, hnq]
    · have hm := hq i m hold
      have hlen : i < counts.length := (List.getElem?_eq_some_iff.mp hold).1
      rwa [if_pos (by omega)] at hm
  · refine ⟨q, ?_⟩
    intro i m hi
    rw [Nat.mod_eq_of_lt (by omega)]
    rcases List.set_cases hi with ⟨rfl, hm⟩ | ⟨hne, hold⟩
    · rw [if_pos (Nat.lt_succ_self i), hm, hnq]
    · have hm := hq i m hold
      rw [hm]
      by_cases hi : i < next
      · rw [if_pos hi, if_pos (by omega)]
      · rw [if_neg hi, if_neg (by omega)]

theorem Turns.balanced (h : Turns counts next) {m : ℕ} (hm : m ∈ counts) (hn : n ∈ counts) : m ≤ n + 1 := by
  obtain ⟨q, hq⟩ := h.rounds
  obtain ⟨i, hi⟩ := List.mem_iff_getElem?.mp hm
  obtain ⟨j, hj⟩ := List.mem_iff_getElem?.mp hn
  have hmq := hq i m hi
  have hnq := hq j n hj
  split at hmq <;> split at hnq <;> omega

end RoundRobin
