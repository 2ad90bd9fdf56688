import Mathlib.Data.List.Basic
import Mathlib.Order.Basic

/-!
# Chains of linked cells

A heap maps keys to cells, each with a value and the key of the next cell. `Seg h p vs q`
says that `q` is reached from `p` along `next`, and that `vs` are the values of the cells
behind `p`, the one at `q` included; the value of `p` itself is not part of it. This is the
shape of a queue with a dummy cell.

* `Seg.snoc`: a segment grows at its end.
* `Seg.frame`: a segment survives changes that keep the cells it can reach and set no
  `next` that was already set.
-/

/-- A cell of a singly linked list. -/
structure Cell (κ ν : Type*) where
  value : ν
  next : Option κ
deriving DecidableEq, Repr

namespace Chain

variable {κ ν : Type*}

/-- `q` is reached from `p`, and `vs` are the values behind `p`. -/
def Seg (h : κ → Option (Cell κ ν)) : κ → List ν → κ → Prop
  | p, [], q => p = q
  | p, v :: vs, q => ∃ w n x, h p = some ⟨w, some n⟩ ∧ h n = some ⟨v, x⟩ ∧ Seg h n vs q

variable {h h' : κ → Option (Cell κ ν)}

theorem Seg.snoc {p q n : κ} {vs : List ν} {w v : ν} {x : Option κ} (hs : Seg h p vs q)
    (hq : h q = some ⟨w, some n⟩) (hn : h n = some ⟨v, x⟩) : Seg h p (vs ++ [v]) n := by
  induction vs generalizing p with
  | nil =>
    obtain rfl : p = q := hs
    exact ⟨w, n, x, hq, hn, rfl⟩
  | cons u vs ih =>
    obtain ⟨w', m, y, hp, hm, hs⟩ := hs
    exact ⟨w', m, y, hp, hm, ih hs⟩

/-- The second heap has the cell `r` of the first, with its value and its `next` once set. -/
def Keeps (h h' : κ → Option (Cell κ ν)) (r : κ) : Prop :=
  ∀ c, h r = some c → ∃ c', h' r = some c' ∧ c'.value = c.value ∧ (∀ n, c.next = some n → c'.next = some n)

theorem Keeps.of_eq {r : κ} (he : h' r = h r) : Keeps h h' r :=
  fun c hc => ⟨c, he.trans hc, rfl, fun _ hn => hn⟩

/-- A link that is kept is still there. -/
theorem Keeps.link {r n : κ} {w : ν} (hk : Keeps h h' r) (hr : h r = some ⟨w, some n⟩) :
    h' r = some ⟨w, some n⟩ := by
  obtain ⟨⟨w', x'⟩, hc', hv, hn⟩ := hk _ hr
  rw [hc', show w' = w from hv, show x' = some n from hn n rfl]

/-- A segment that ends at a cell starts at one. -/
theorem Seg.live {p q : κ} {vs : List ν} (hs : Seg h p vs q) (hq : (h q).isSome) : (h p).isSome := by
  cases vs with
  | nil => rw [show p = q from hs]; exact hq
  | cons v vs =>
    obtain ⟨w, n, x, hp, -, -⟩ := hs
    rw [hp]; rfl

/-- Along a segment whose links go upward the end is not below the start. -/
theorem Seg.le [Preorder κ] (hup : ∀ p w n, h p = some ⟨w, some n⟩ → p < n) {p q : κ} {vs : List ν}
    (hs : Seg h p vs q) : p ≤ q := by
  induction vs generalizing p with
  | nil => rw [show p = q from hs]
  | cons v vs ih =>
    obtain ⟨w, n, x, hp, -, hs⟩ := hs
    exact le_trans (hup p w n hp).le (ih hs)

/-- **Frame rule.** A segment survives a change that keeps every cell of a set its
start belongs to and links do not leave. -/
theorem Seg.frame {P : κ → Prop} (hP : ∀ r w n, P r → h r = some ⟨w, some n⟩ → P n)
    (hk : ∀ r, P r → Keeps h h' r) {p q : κ} {vs : List ν} (hp : P p) (hs : Seg h p vs q) :
    Seg h' p vs q := by
  induction vs generalizing p with
  | nil => exact hs
  | cons v vs ih =>
    obtain ⟨w, n, x, hpn, hn, hs⟩ := hs
    have hPn := hP p w n hp hpn
    obtain ⟨⟨v', x'⟩, hc', hv, -⟩ := hk n hPn _ hn
    exact ⟨w, n, x', (hk p hp).link hpn, by rw [hc', show v' = v from hv], ih hPn hs⟩

end Chain
