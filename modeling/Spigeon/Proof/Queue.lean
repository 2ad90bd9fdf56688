import Mathlib.Order.Nat
import Spigeon.Lib.Lts
import Spigeon.Spec.Queue

/-!
# `LockFreeQueue` is a FIFO queue for one producer and one consumer

The nodes form one chain: from `first` to `divider` the ones the producer may delete, from
`divider` to `last` the ones not consumed yet. Links go from older to newer nodes, so a
node before `first` is not on the chain.

* `SharedOK`: the chain, with the published values. `TailOK`, `CleanOK` and `ConsOK`: what
  each thread knows at each of its steps.
* `prodStep_ok`, `consStep_ok`: one step of a thread keeps the invariant; in particular
  it does not fault.
* `step_list`: one access pushes a value, or is the return of a `consume` that has found
  everything consumed or takes the front, or leaves the values and the results alone.
* `queue_fifo`: every access of every interleaving is such a step, the values consumed are
  a prefix of the values produced, no deleted node or NULL pointer is followed and no
  node is deleted twice.
-/

namespace Spigeon

open Chain Lts

variable {α : Type} {s : Shared α} {garbage pending : List α}

/-! ## The invariant -/

/-- The chain `first .. divider .. last` and the values behind it. -/
structure SharedOK (s : Shared α) (garbage pending : List α) : Prop where
  behind : Seg s.heap s.first garbage s.divider
  ahead : Seg s.heap s.divider pending s.last
  stream : s.published = s.consumed ++ pending
  lastLive : (s.heap s.last).isSome
  bound : ∀ p, (s.heap p).isSome → p < s.allocated
  forward : ∀ p w n, s.heap p = some ⟨w, some n⟩ → p < n
  addrInj : ∀ p q, (s.heap p).isSome → (s.heap q).isSome → s.addr p = s.addr q → p = q
  dead : ∀ p ∈ s.deleted, s.heap p = none ∧ p < s.allocated
  once : s.deleted.Nodup

/-- Nothing hangs behind `last`. -/
def Closed (s : Shared α) : Prop := ∃ w, s.heap s.last = some ⟨w, none⟩

/-- The new node hangs behind `last` and is not published yet. -/
def Linked (s : Shared α) (t : α) (n : ℕ) : Prop :=
  (∃ w, s.heap s.last = some ⟨w, some n⟩) ∧ s.heap n = some ⟨t, none⟩

/-- What the producer knows of the tail. -/
def TailOK (s : Shared α) : Producer α → Prop
  | .alloc t => s.produced = s.published ++ [t] ∧ Closed s
  | .readLast t n => s.produced = s.published ++ [t] ∧ Closed s ∧ s.heap n = some ⟨t, none⟩ ∧ s.last < n
  | .link t n l =>
    s.produced = s.published ++ [t] ∧ l = s.last ∧ Closed s ∧ s.heap n = some ⟨t, none⟩ ∧ s.last < n
  | .rereadLast t => s.produced = s.published ++ [t] ∧ ∃ n, Linked s t n
  | .readNext t l => s.produced = s.published ++ [t] ∧ l = s.last ∧ ∃ n, Linked s t n
  | .publish t n => s.produced = s.published ++ [t] ∧ Linked s t n
  | _ => s.produced = s.published ∧ Closed s

/-- What the producer knows of the nodes it deletes. -/
def CleanOK (s : Shared α) (garbage : List α) : Producer α → Prop
  | .compare f => f = s.first
  | .readTemp => garbage ≠ []
  | .readFirst temp => temp = s.first ∧ garbage ≠ []
  | .readFirstNext temp f => temp = s.first ∧ f = s.first ∧ garbage ≠ []
  | .writeFirst temp n => temp = s.first ∧ garbage ≠ [] ∧ ∃ w, s.heap s.first = some ⟨w, some n⟩
  | .delete temp => (s.heap temp).isSome ∧ temp < s.first
  | _ => True

/-- What the consumer knows. -/
def ConsOK (s : Shared α) (pending : List α) : Consumer α → Prop
  | .compare d => d = s.divider
  | .rereadDivider => pending ≠ []
  | .readNext d => d = s.divider ∧ pending ≠ []
  | .readValue n => pending ≠ [] ∧ ∃ w, s.heap s.divider = some ⟨w, some n⟩
  | .readDividerAgain v => pending.head? = some v
  | .readNextAgain v d => d = s.divider ∧ pending.head? = some v
  | .writeDivider v n => pending.head? = some v ∧ ∃ w, s.heap s.divider = some ⟨w, some n⟩
  | _ => True

structure QueueOK (q : LockFreeQueue α) (garbage pending : List α) : Prop where
  shared : SharedOK q.sh garbage pending
  tail : TailOK q.sh q.prod
  clean : CleanOK q.sh garbage q.prod
  cons : ConsOK q.sh pending q.cons
  sound : q.fault = false

/-! ## The shared part -/

@[simp] theorem consumed_returns_none (s : Shared α) : (s.consumeReturns none).consumed = s.consumed := by
  simp [Shared.consumed, Shared.consumeReturns, List.reduceOption_append]

@[simp] theorem consumed_returns_some (s : Shared α) (v : α) :
    (s.consumeReturns (some v)).consumed = s.consumed ++ [v] := by
  simp [Shared.consumed, Shared.consumeReturns, List.reduceOption_append]

theorem SharedOK.dividerLive (h : SharedOK s garbage pending) : (s.heap s.divider).isSome :=
  h.ahead.live h.lastLive

theorem SharedOK.firstLive (h : SharedOK s garbage pending) : (s.heap s.first).isSome :=
  h.behind.live h.dividerLive

/-- Pointers into the chain are equal when their addresses are. -/
theorem SharedOK.divider_eq_last (h : SharedOK s garbage pending) (ha : s.addr s.divider = s.addr s.last) :
    s.divider = s.last := h.addrInj _ _ h.dividerLive h.lastLive ha

/-- A segment from a node to itself is empty. -/
theorem SharedOK.seg_self (h : SharedOK s garbage pending) {p : ℕ} {vs : List α} (hs : Seg s.heap p vs p) :
    vs = [] := by
  cases vs with
  | nil => rfl
  | cons v vs =>
    obtain ⟨w, n, x, hp, -, hs⟩ := hs
    have hlt := h.forward p w n hp
    have hle := hs.le h.forward
    omega

/-- The node behind the divider, when something is pending. -/
theorem SharedOK.pending_next (h : SharedOK s garbage pending) (hp : pending ≠ []) :
    ∃ w n v x, s.heap s.divider = some ⟨w, some n⟩ ∧ s.heap n = some ⟨v, x⟩ ∧ pending.head? = some v := by
  cases pending with
  | nil => exact absurd rfl hp
  | cons v vs =>
    obtain ⟨w, n, x, hd, hn, -⟩ := h.ahead
    exact ⟨w, n, v, x, hd, hn, rfl⟩

theorem SharedOK.garbage_next (h : SharedOK s garbage pending) (hg : garbage ≠ []) :
    ∃ w n, s.heap s.first = some ⟨w, some n⟩ := by
  cases garbage with
  | nil => exact absurd rfl hg
  | cons v vs =>
    obtain ⟨w, n, x, hf, -, -⟩ := h.behind
    exact ⟨w, n, hf⟩

/-- A change that keeps every cell keeps the chain. -/
theorem SharedOK.segs_of_keeps (h : SharedOK s garbage pending) {heap' : ℕ → Option (Node α)}
    (hk : ∀ r, Keeps s.heap heap' r) :
    Seg heap' s.first garbage s.divider ∧ Seg heap' s.divider pending s.last :=
  ⟨h.behind.frame (P := fun _ => True) (fun _ _ _ _ _ => trivial) (fun r _ => hk r) trivial,
    h.ahead.frame (P := fun _ => True) (fun _ _ _ _ _ => trivial) (fun r _ => hk r) trivial⟩

theorem SharedOK.fresh (h : SharedOK s garbage pending) : s.heap s.allocated = none := by
  cases hc : s.heap s.allocated with
  | none => rfl
  | some c => exact absurd (h.bound s.allocated (by rw [hc]; rfl)) (lt_irrefl _)

theorem new_keeps (h : SharedOK s garbage pending) (t : α) (a r : ℕ) : Keeps s.heap (s.new t a).heap r := by
  intro c hc
  have hne : r ≠ s.allocated := by
    rintro rfl
    rw [h.fresh] at hc
    cases hc
  exact ⟨c, by simp only [Shared.new]; rw [Function.update_of_ne hne]; exact hc, rfl, fun _ hn => hn⟩

theorem new_heap (s : Shared α) (t : α) (a p : ℕ) :
    (s.new t a).heap p = if p = s.allocated then some ⟨t, none⟩ else s.heap p := by
  simp only [Shared.new, Function.update_apply]

theorem new_ok (h : SharedOK s garbage pending) (t : α) {a : ℕ} (ha : s.Vacant a) :
    SharedOK (s.new t a) garbage pending := by
  obtain ⟨hb, hahead⟩ := h.segs_of_keeps (new_keeps h t a)
  -- a live node other than the new one was live before and is elsewhere
  have hold : ∀ p, p ≠ s.allocated → ((s.new t a).heap p).isSome →
      (s.heap p).isSome ∧ p < s.allocated ∧ (s.new t a).addr p = s.addr p ∧ s.addr p ≠ a := by
    intro p hp hl
    rw [new_heap, if_neg hp] at hl
    have hlt := h.bound p hl
    exact ⟨hl, hlt, Function.update_of_ne hp _ _, ha p hlt hl⟩
  have hnew : (s.new t a).addr s.allocated = a := Function.update_self _ _ _
  refine ⟨hb, hahead, h.stream, ?_, ?_, ?_, ?_, ?_, h.once⟩
  · obtain ⟨c, hc⟩ := Option.isSome_iff_exists.1 h.lastLive
    obtain ⟨c', hc', -⟩ := new_keeps h t a _ c hc
    rw [show (s.new t a).last = s.last from rfl, hc']; rfl
  · intro p hp
    by_cases he : p = s.allocated
    · rw [he]; exact Nat.lt_succ_self _
    · exact Nat.lt_succ_of_lt (hold p he hp).2.1
  · intro p w n hp
    rw [new_heap] at hp
    split at hp
    · cases hp
    · exact h.forward p w n hp
  · intro p q hp hq hpq
    by_cases hpe : p = s.allocated
    · by_cases hqe : q = s.allocated
      · rw [hpe, hqe]
      · obtain ⟨-, -, hqa, hne⟩ := hold q hqe hq
        rw [hpe, hnew, hqa] at hpq
        exact absurd hpq.symm hne
    · obtain ⟨hpl, -, hpa, hne⟩ := hold p hpe hp
      by_cases hqe : q = s.allocated
      · rw [hqe, hnew, hpa] at hpq
        exact absurd hpq hne
      · obtain ⟨hql, -, hqa, -⟩ := hold q hqe hq
        exact h.addrInj p q hpl hql (by rw [← hpa, ← hqa]; exact hpq)
  · intro p hp
    obtain ⟨hn, hlt⟩ := h.dead p hp
    rw [new_heap, if_neg (by omega)]
    exact ⟨hn, Nat.lt_succ_of_lt hlt⟩

theorem setNext_keeps {c : Node α} {p n : ℕ} (hp : s.heap p = some c) (hc : c.next = none) (r : ℕ) :
    Keeps s.heap (s.setNext p c n).heap r := by
  by_cases he : r = p
  · intro c' hc'
    rw [he, hp, Option.some.injEq] at hc'
    subst hc'
    refine ⟨⟨c.value, some n⟩, ?_, rfl, ?_⟩
    · rw [he]; exact Function.update_self _ _ _
    · intro m hm; rw [hc] at hm; cases hm
  · exact Keeps.of_eq (Function.update_of_ne he _ _)

theorem setNext_isSome {c : Node α} {p n q : ℕ} (hp : s.heap p = some c) :
    ((s.setNext p c n).heap q).isSome ↔ (s.heap q).isSome := by
  simp only [Shared.setNext, Function.update_apply]
  split
  · rename_i he; rw [he, hp]; simp
  · rfl

/-- Hanging the new node behind `last` changes nothing before it. -/
theorem setNext_ok (h : SharedOK s garbage pending) {c : Node α} {n : ℕ} (hl : s.heap s.last = some c)
    (hc : c.next = none) (hn : s.last < n) : SharedOK (s.setNext s.last c n) garbage pending := by
  obtain ⟨hb, ha⟩ := h.segs_of_keeps (setNext_keeps (n := n) hl hc)
  refine ⟨hb, ha, h.stream, ?_, ?_, ?_, ?_, ?_, h.once⟩
  · exact (setNext_isSome hl).2 h.lastLive
  · intro p hp
    exact h.bound p ((setNext_isSome hl).1 hp)
  · intro p w m hp
    simp only [Shared.setNext, Function.update_apply] at hp
    split at hp
    · rename_i he
      simp only [Option.some.injEq, Cell.mk.injEq] at hp
      rw [he, ← hp.2]; exact hn
    · exact h.forward p w m hp
  · intro p q hp hq
    exact h.addrInj p q ((setNext_isSome hl).1 hp) ((setNext_isSome hl).1 hq)
  · intro p hp
    obtain ⟨hnone, hlt⟩ := h.dead p hp
    refine ⟨?_, hlt⟩
    have hne : p ≠ s.last := by
      rintro rfl
      rw [hl] at hnone
      cases hnone
    simp only [Shared.setNext]
    rw [Function.update_of_ne hne]; exact hnone

theorem publish_ok (h : SharedOK s garbage pending) {t : α} {n : ℕ} (hl : Linked s t n) :
    SharedOK { s with last := n, published := s.published ++ [t] } garbage (pending ++ [t]) := by
  obtain ⟨⟨w, hlast⟩, hn⟩ := hl
  refine ⟨h.behind, h.ahead.snoc hlast hn, ?_, ?_, h.bound, h.forward, h.addrInj, h.dead, h.once⟩
  · exact (congrArg (· ++ [t]) h.stream).trans (List.append_assoc _ _ _)
  · simp only; rw [hn]; rfl

theorem writeFirst_ok (h : SharedOK s garbage pending) {n : ℕ} {w : α} (hf : s.heap s.first = some ⟨w, some n⟩)
    (hg : garbage ≠ []) : SharedOK { s with first := n } garbage.tail pending := by
  refine ⟨?_, h.ahead, h.stream, h.lastLive, h.bound, h.forward, h.addrInj, h.dead, h.once⟩
  cases garbage with
  | nil => exact absurd rfl hg
  | cons v vs =>
    obtain ⟨w', n', x, hf', -, hs⟩ := h.behind
    rw [hf, Option.some.injEq, Cell.mk.injEq, Option.some.injEq] at hf'
    rw [hf'.2]; exact hs

theorem writeDivider_ok (h : SharedOK s garbage pending) {n : ℕ} {v w : α} (hp : pending.head? = some v)
    (hd : s.heap s.divider = some ⟨w, some n⟩) :
    SharedOK ({ s with divider := n }.consumeReturns (some v)) (garbage ++ [v]) pending.tail := by
  cases pending with
  | nil => cases hp
  | cons v' vs =>
    simp only [List.head?_cons, Option.some.injEq] at hp
    subst hp
    obtain ⟨w', n', x, hd', hn, hs⟩ := h.ahead
    rw [hd, Option.some.injEq, Cell.mk.injEq, Option.some.injEq] at hd'
    obtain ⟨-, rfl⟩ := hd'
    refine ⟨h.behind.snoc hd hn, hs, ?_, h.lastLive, h.bound, h.forward, h.addrInj, h.dead, h.once⟩
    rw [consumed_returns_some]
    exact h.stream.trans (List.append_cons _ _ _)

/-- A `consume` that returns false changes nothing but the record. -/
theorem returnsFalse_ok (h : SharedOK s garbage pending) : SharedOK (s.consumeReturns none) garbage pending := by
  refine ⟨h.behind, h.ahead, ?_, h.lastLive, h.bound, h.forward, h.addrInj, h.dead, h.once⟩
  rw [consumed_returns_none]
  exact h.stream

/-- Deleting a node before `first` keeps every node from `first` on. -/
theorem free_keeps {temp r : ℕ} (hr : temp < r) : Keeps s.heap (s.free temp).heap r :=
  Keeps.of_eq (Function.update_of_ne (by omega) _ _)

theorem free_ok (h : SharedOK s garbage pending) {temp : ℕ} (hlive : (s.heap temp).isSome)
    (hlt : temp < s.first) : SharedOK (s.free temp) garbage pending := by
  have hfd := h.behind.le h.forward
  have hdl := h.ahead.le h.forward
  have hup : ∀ r w n, temp < r → s.heap r = some ⟨w, some n⟩ → temp < n :=
    fun r w n hr hrn => lt_trans hr (h.forward r w n hrn)
  have hheap : ∀ p, (s.free temp).heap p = if p = temp then none else s.heap p := by
    intro p; simp only [Shared.free, Function.update_apply]
  have hold : ∀ p, ((s.free temp).heap p).isSome → (s.heap p).isSome := by
    intro p hp
    rw [hheap] at hp
    split at hp
    · cases hp
    · exact hp
  refine ⟨h.behind.frame hup (fun r => free_keeps) hlt,
    h.ahead.frame hup (fun r => free_keeps) (show temp < s.divider by omega),
    h.stream, ?_, fun p hp => h.bound p (hold p hp), ?_,
    fun p q hp hq => h.addrInj p q (hold p hp) (hold q hq), ?_, ?_⟩
  · rw [show (s.free temp).last = s.last from rfl, hheap, if_neg (by omega)]; exact h.lastLive
  · intro p w n hp
    rw [hheap] at hp
    split at hp
    · cases hp
    · exact h.forward p w n hp
  · intro p hp
    rw [hheap]
    rcases List.mem_cons.1 hp with rfl | hp
    · exact ⟨if_pos rfl, h.bound p hlive⟩
    · obtain ⟨hnone, hb⟩ := h.dead p hp
      refine ⟨?_, hb⟩
      split
      · rfl
      · exact hnone
  · -- a node that is still there has not been deleted
    refine List.nodup_cons.2 ⟨fun hmem => ?_, h.once⟩
    rw [(h.dead temp hmem).1] at hlive
    cases hlive

/-! ## What the threads know is stable -/

theorem ConsOK.stable {s' : Shared α} {pending' : List α} {pc : Consumer α} (hc : ConsOK s pending pc)
    (hd : s'.divider = s.divider) (hk : Keeps s.heap s'.heap s.divider) (hp : pending <+: pending') :
    ConsOK s' pending' pc := by
  have hne : pending ≠ [] → pending' ≠ [] := by
    rintro h rfl
    exact h (List.prefix_nil.1 hp)
  have hhead : ∀ v, pending.head? = some v → pending'.head? = some v := by
    intro v hv
    obtain ⟨vs, rfl⟩ := List.head?_eq_some_iff.1 hv
    obtain ⟨ws, rfl⟩ := hp
    rfl
  cases pc with
  | idle => trivial
  | readDivider => trivial
  | compare d => exact hc.trans hd.symm
  | rereadDivider => exact hne hc
  | readNext d => exact ⟨hc.1.trans hd.symm, hne hc.2⟩
  | readValue n =>
    obtain ⟨h1, w, h2⟩ := hc
    exact ⟨hne h1, w, by rw [hd]; exact hk.link h2⟩
  | readDividerAgain v => exact hhead v hc
  | readNextAgain v d => exact ⟨hc.1.trans hd.symm, hhead v hc.2⟩
  | writeDivider v n =>
    obtain ⟨h1, w, h2⟩ := hc
    exact ⟨hhead v h1, w, by rw [hd]; exact hk.link h2⟩

/-- The consumer moves the divider and nothing the producer relies on. -/
theorem CleanOK.stable {pc : Producer α} (h : CleanOK s garbage pc) (v : α) (n : ℕ) :
    CleanOK ({ s with divider := n }.consumeReturns (some v)) (garbage ++ [v]) pc := by
  cases pc with
  | compare f => exact h
  | readTemp => exact List.append_ne_nil_of_left_ne_nil h _
  | readFirst temp => exact ⟨h.1, List.append_ne_nil_of_left_ne_nil h.2 _⟩
  | readFirstNext temp f => exact ⟨h.1, h.2.1, List.append_ne_nil_of_left_ne_nil h.2.2 _⟩
  | writeFirst temp m => exact ⟨h.1, List.append_ne_nil_of_left_ne_nil h.2.1 _, h.2.2⟩
  | delete temp => exact h
  | idle => trivial
  | alloc t => trivial
  | readLast t m => trivial
  | link t m l => trivial
  | rereadLast t => trivial
  | readNext t l => trivial
  | publish t m => trivial
  | loop => trivial

theorem TailOK.stable {pc : Producer α} (h : TailOK s pc) (n : ℕ) (r : Option α) :
    TailOK ({ s with divider := n }.consumeReturns r) pc := by
  cases pc <;> exact h

theorem CleanOK.returns {pc : Producer α} (h : CleanOK s garbage pc) (r : Option α) :
    CleanOK (s.consumeReturns r) garbage pc := by
  cases pc <;> exact h

/-! ## Steps -/

section Steps

variable {q q' : LockFreeQueue α}

theorem deref_some {p : ℕ} {c : Node α} (hp : q.sh.heap p = some c) (k : Node α → LockFreeQueue α) :
    q.deref p k = k c := by
  unfold LockFreeQueue.deref; rw [hp]

theorem derefNext_some {p n : ℕ} {w : α} (hp : q.sh.heap p = some ⟨w, some n⟩) (k : ℕ → LockFreeQueue α) :
    q.derefNext p k = k n := by
  unfold LockFreeQueue.derefNext; rw [deref_some hp]

/-- **A step of the producer keeps the invariant.** -/
theorem prodStep_ok (h : QueueOK q garbage pending) (hst : q.prodStep = some q') :
    ∃ garbage' pending', QueueOK q' garbage' pending' := by
  obtain ⟨hsh, htail, hclean, hcons, hsound⟩ := h
  unfold LockFreeQueue.prodStep at hst
  cases hpc : q.prod with
  | idle => rw [hpc] at hst; cases hst
  | alloc t => rw [hpc] at hst; cases hst
  | readLast t n =>
    rw [hpc] at hst htail
    cases hst
    obtain ⟨hprod, hclosed, hn, hlt⟩ := htail
    exact ⟨garbage, pending, hsh, ⟨hprod, rfl, hclosed, hn, hlt⟩, trivial, hcons, hsound⟩
  | link t n l =>
    rw [hpc] at hst htail
    obtain ⟨hprod, rfl, ⟨w, hlast⟩, hn, hlt⟩ := htail
    simp only [deref_some hlast, Option.some.injEq] at hst
    subst hst
    -- the consumer does not look behind `last` before the node is published
    have hk := setNext_keeps (n := n) hlast rfl
    have hne : n ≠ q.sh.last := by omega
    refine ⟨garbage, pending, setNext_ok hsh hlast rfl hlt, ⟨hprod, n, ⟨w, ?_⟩, ?_⟩, trivial,
      hcons.stable rfl (hk _) (List.prefix_refl _), hsound⟩
    · exact Function.update_self _ _ _
    · exact (Function.update_of_ne hne _ _).trans hn
  | rereadLast t =>
    rw [hpc] at hst htail
    cases hst
    exact ⟨garbage, pending, hsh, ⟨htail.1, rfl, htail.2⟩, trivial, hcons, hsound⟩
  | readNext t l =>
    rw [hpc] at hst htail
    obtain ⟨hprod, rfl, n, ⟨w, hlast⟩, hn⟩ := htail
    simp only [derefNext_some hlast, Option.some.injEq] at hst
    subst hst
    exact ⟨garbage, pending, hsh, ⟨hprod, ⟨w, hlast⟩, hn⟩, trivial, hcons, hsound⟩
  | publish t n =>
    rw [hpc] at hst htail
    cases hst
    obtain ⟨hprod, hlinked⟩ := htail
    exact ⟨garbage, pending ++ [t], publish_ok hsh hlinked, ⟨hprod, t, hlinked.2⟩, trivial,
      hcons.stable rfl (Keeps.of_eq rfl) (List.prefix_append _ _), hsound⟩
  | loop =>
    rw [hpc] at hst htail
    cases hst
    exact ⟨garbage, pending, hsh, htail, rfl, hcons, hsound⟩
  | compare f =>
    rw [hpc] at hst htail hclean
    cases hst
    by_cases ha : q.sh.addr f ≠ q.sh.addr q.sh.divider
    · -- the divider has moved on, so there is something to delete
      have hg : garbage ≠ [] := by
        rintro rfl
        rw [show f = q.sh.first from hclean, show q.sh.first = q.sh.divider from hsh.behind] at ha
        exact ha rfl
      rw [if_pos ha]
      exact ⟨garbage, pending, hsh, htail, hg, hcons, hsound⟩
    · rw [if_neg ha]
      exact ⟨garbage, pending, hsh, htail, trivial, hcons, hsound⟩
  | readTemp =>
    rw [hpc] at hst htail hclean
    cases hst
    exact ⟨garbage, pending, hsh, htail, ⟨rfl, hclean⟩, hcons, hsound⟩
  | readFirst temp =>
    rw [hpc] at hst htail hclean
    cases hst
    exact ⟨garbage, pending, hsh, htail, ⟨hclean.1, rfl, hclean.2⟩, hcons, hsound⟩
  | readFirstNext temp f =>
    rw [hpc] at hst htail hclean
    obtain ⟨htemp, rfl, hg⟩ := hclean
    obtain ⟨w, n, hf⟩ := hsh.garbage_next hg
    simp only [derefNext_some hf, Option.some.injEq] at hst
    subst hst
    exact ⟨garbage, pending, hsh, htail, ⟨htemp, hg, w, hf⟩, hcons, hsound⟩
  | writeFirst temp n =>
    rw [hpc] at hst htail hclean
    cases hst
    obtain ⟨rfl, hg, w, hf⟩ := hclean
    -- `first` has left the node that is deleted next
    have hclean' : CleanOK { q.sh with first := n } garbage.tail (.delete q.sh.first) :=
      ⟨hsh.firstLive, hsh.forward _ _ _ hf⟩
    exact ⟨garbage.tail, pending, writeFirst_ok hsh hf hg, htail, hclean',
      hcons.stable rfl (Keeps.of_eq rfl) (List.prefix_refl _), hsound⟩
  | delete temp =>
    rw [hpc] at hst htail hclean
    obtain ⟨hlive, hlt⟩ := hclean
    obtain ⟨c, hc⟩ := Option.isSome_iff_exists.1 hlive
    simp only [deref_some hc, Option.some.injEq] at hst
    subst hst
    -- the deleted node is before `first`, and so before the divider and `last`
    have hfd := hsh.behind.le hsh.forward
    have hdl := hsh.ahead.le hsh.forward
    obtain ⟨hprod, w, hlast⟩ := htail
    refine ⟨garbage, pending, free_ok hsh hlive hlt, ⟨hprod, w, ?_⟩, trivial,
      hcons.stable rfl (free_keeps (by omega)) (List.prefix_refl _), hsound⟩
    exact (Function.update_of_ne (show q.sh.last ≠ temp by omega) _ _).trans hlast

/-- **A step of the consumer keeps the invariant.** -/
theorem consStep_ok (h : QueueOK q garbage pending) (hst : q.consStep = some q') :
    ∃ garbage' pending', QueueOK q' garbage' pending' := by
  obtain ⟨hsh, htail, hclean, hcons, hsound⟩ := h
  unfold LockFreeQueue.consStep at hst
  cases hpc : q.cons with
  | idle => rw [hpc] at hst; cases hst
  | readDivider =>
    rw [hpc] at hst
    cases hst
    exact ⟨garbage, pending, hsh, htail, hclean, rfl, hsound⟩
  | compare d =>
    simp only [hpc] at hst
    rw [hpc] at hcons
    split at hst
    · rename_i ha
      cases hst
      -- with nothing pending the divider is `last`, at one address
      have hp : pending ≠ [] := by
        rintro rfl
        rw [show d = q.sh.divider from hcons, show q.sh.divider = q.sh.last from hsh.ahead] at ha
        exact ha rfl
      exact ⟨garbage, pending, hsh, htail, hclean, hp, hsound⟩
    · cases hst
      exact ⟨garbage, pending, returnsFalse_ok hsh, htail.stable q.sh.divider none, hclean.returns none, trivial,
        hsound⟩
  | rereadDivider =>
    rw [hpc] at hst hcons
    cases hst
    exact ⟨garbage, pending, hsh, htail, hclean, ⟨rfl, hcons⟩, hsound⟩
  | readNext d =>
    rw [hpc] at hst hcons
    obtain ⟨rfl, hp⟩ := hcons
    obtain ⟨w, n, v, x, hd, -, -⟩ := hsh.pending_next hp
    simp only [derefNext_some hd, Option.some.injEq] at hst
    subst hst
    exact ⟨garbage, pending, hsh, htail, hclean, ⟨hp, w, hd⟩, hsound⟩
  | readValue n =>
    rw [hpc] at hst hcons
    obtain ⟨hp, w, hd⟩ := hcons
    obtain ⟨w', n', v, x, hd', hn, hv⟩ := hsh.pending_next hp
    rw [hd, Option.some.injEq, Cell.mk.injEq, Option.some.injEq] at hd'
    obtain ⟨-, rfl⟩ := hd'
    simp only [deref_some hn, Option.some.injEq] at hst
    subst hst
    exact ⟨garbage, pending, hsh, htail, hclean, hv, hsound⟩
  | readDividerAgain v =>
    rw [hpc] at hst hcons
    cases hst
    exact ⟨garbage, pending, hsh, htail, hclean, ⟨rfl, hcons⟩, hsound⟩
  | readNextAgain v d =>
    rw [hpc] at hst hcons
    obtain ⟨rfl, hv⟩ := hcons
    have hp : pending ≠ [] := by
      rintro rfl
      cases hv
    obtain ⟨w, n, -, -, hd, -, -⟩ := hsh.pending_next hp
    simp only [derefNext_some hd, Option.some.injEq] at hst
    subst hst
    exact ⟨garbage, pending, hsh, htail, hclean, ⟨hv, w, hd⟩, hsound⟩
  | writeDivider v n =>
    rw [hpc] at hst hcons
    cases hst
    obtain ⟨hv, w, hd⟩ := hcons
    exact ⟨garbage ++ [v], pending.tail, writeDivider_ok hsh hv hd, htail.stable n (some v), hclean.stable v n,
      trivial, hsound⟩

theorem step_queue_ok {e : QueueEvent α} (h : ∃ garbage pending, QueueOK q garbage pending)
    (hst : q.step e = some q') : ∃ garbage pending, QueueOK q' garbage pending := by
  obtain ⟨garbage, pending, hok⟩ := h
  obtain ⟨hsh, htail, hclean, hcons, hsound⟩ := hok
  unfold LockFreeQueue.step at hst
  rw [if_neg (by rw [hsound]; decide)] at hst
  cases e with
  | produce t =>
    cases hpc : q.prod with
    | idle =>
      simp only [hpc, Option.some.injEq] at hst
      rw [hpc] at htail
      subst hst
      have hsh' : SharedOK { q.sh with produced := q.sh.produced ++ [t] } garbage pending :=
        ⟨hsh.behind, hsh.ahead, hsh.stream, hsh.lastLive, hsh.bound, hsh.forward, hsh.addrInj, hsh.dead, hsh.once⟩
      have htail' : TailOK { q.sh with produced := q.sh.produced ++ [t] } (.alloc t) :=
        ⟨congrArg (· ++ [t]) htail.1, htail.2⟩
      exact ⟨garbage, pending, hsh', htail', trivial, hcons.stable rfl (Keeps.of_eq rfl) (List.prefix_refl _),
        hsound⟩
    | _ => simp only [hpc] at hst; cases hst
  | alloc a =>
    cases hpc : q.prod with
    | alloc t =>
      simp only [hpc] at hst
      rw [hpc] at htail
      split at hst
      · rename_i hvac
        cases hst
        -- the address may be one of a deleted node, but of no live one
        obtain ⟨hprod, w, hlast⟩ := htail
        have hlt := hsh.bound _ hsh.lastLive
        refine ⟨garbage, pending, new_ok hsh t hvac, ⟨hprod, ⟨w, ?_⟩, ?_, hlt⟩, trivial,
          hcons.stable rfl (new_keeps hsh t a _) (List.prefix_refl _), hsound⟩
        · exact (Function.update_of_ne (show q.sh.last ≠ q.sh.allocated by omega) _ _).trans hlast
        · exact Function.update_self _ _ _
      · cases hst
    | _ => simp only [hpc] at hst; cases hst
  | prod => exact prodStep_ok ⟨hsh, htail, hclean, hcons, hsound⟩ hst
  | consume =>
    cases hpc : q.cons with
    | idle =>
      simp only [hpc, Option.some.injEq] at hst
      subst hst
      exact ⟨garbage, pending, hsh, htail, hclean, trivial, hsound⟩
    | _ => simp only [hpc] at hst; cases hst
  | cons => exact consStep_ok ⟨hsh, htail, hclean, hcons, hsound⟩ hst

end Steps

/-! ## The queue as a list -/

section Content

variable {q q' : LockFreeQueue α}

/-- The values in the queue. -/
def LockFreeQueue.content (q : LockFreeQueue α) : List α := q.sh.published.drop q.sh.consumed.length

theorem SharedOK.content (h : SharedOK q.sh garbage pending) : q.content = pending := by
  unfold LockFreeQueue.content
  rw [h.stream, List.drop_left]

/-- The values and the results are as before, and the consumer has not come back from a call. -/
structure SameStream (q q' : LockFreeQueue α) : Prop where
  published : q'.sh.published = q.sh.published
  results : q'.sh.results = q.sh.results
  calls : q'.cons = .idle → q.cons = .idle

theorem deref_stream (p : ℕ) {k : Node α → LockFreeQueue α} (hk : ∀ c, SameStream q (k c)) :
    SameStream q (q.deref p k) := by
  unfold LockFreeQueue.deref
  split
  · exact hk _
  · exact ⟨rfl, rfl, id⟩

theorem derefNext_stream (p : ℕ) {k : ℕ → LockFreeQueue α} (hk : ∀ n, SameStream q (k n)) :
    SameStream q (q.derefNext p k) := by
  refine deref_stream p fun c => ?_
  split
  · exact hk _
  · exact ⟨rfl, rfl, id⟩

/-- The producer adds to the queue when it writes `last`. -/
theorem prodStep_stream (hst : q.prodStep = some q') :
    SameStream q q' ∨ ∃ t n, q.prod = .publish t n ∧ q'.sh.published = q.sh.published ++ [t] ∧
      q'.sh.results = q.sh.results ∧ q'.cons = q.cons := by
  unfold LockFreeQueue.prodStep at hst
  cases hpc : q.prod with
  | publish t n =>
    rw [hpc] at hst
    cases hst
    exact .inr ⟨t, n, rfl, rfl, rfl, rfl⟩
  | link _ _ _ | delete _ =>
    rw [hpc] at hst
    exact .inl (Option.some.inj hst ▸ deref_stream _ fun c => ⟨rfl, rfl, id⟩)
  | readNext _ _ | readFirstNext _ _ =>
    rw [hpc] at hst
    exact .inl (Option.some.inj hst ▸ derefNext_stream _ fun n => ⟨rfl, rfl, id⟩)
  | idle | alloc _ =>
    rw [hpc] at hst
    cases hst
  | readLast _ _ | rereadLast _ | loop | compare _ | readTemp | readFirst _ | writeFirst _ _ =>
    rw [hpc] at hst
    exact .inl (Option.some.inj hst ▸ ⟨rfl, rfl, id⟩)

/-- The consumer returns at the test, or takes from the queue when it writes `divider` and returns then. -/
theorem consStep_stream (hst : q.consStep = some q') :
    (SameStream q q' ∧ ∀ d, q.cons = .compare d → q.sh.addr d ≠ q.sh.addr q.sh.last) ∨
      (∃ d, q.cons = .compare d ∧ q.sh.addr d = q.sh.addr q.sh.last ∧
        q' = { q with sh := q.sh.consumeReturns none, cons := .idle }) ∨
      ∃ v n, q.cons = .writeDivider v n ∧
        q' = { q with sh := { q.sh with divider := n }.consumeReturns (some v), cons := .idle } := by
  unfold LockFreeQueue.consStep at hst
  cases hpc : q.cons with
  | writeDivider v n =>
    rw [hpc] at hst
    cases hst
    exact .inr (.inr ⟨v, n, rfl, rfl⟩)
  | compare d =>
    simp only [hpc] at hst
    split at hst
    · rename_i ha
      cases hst
      refine .inl ⟨⟨rfl, rfl, fun h => by cases h⟩, ?_⟩
      rintro d' ⟨⟩
      exact ha
    · rename_i ha
      cases hst
      exact .inr (.inl ⟨d, rfl, not_not.1 ha, rfl⟩)
  | readValue _ =>
    rw [hpc] at hst
    refine .inl ⟨Option.some.inj hst ▸ deref_stream _ fun c => ?_, fun _ h => by cases h⟩
    exact ⟨rfl, rfl, fun h => by cases h⟩
  | readNext _ | readNextAgain _ _ =>
    rw [hpc] at hst
    refine .inl ⟨Option.some.inj hst ▸ derefNext_stream _ fun n => ?_, fun _ h => by cases h⟩
    exact ⟨rfl, rfl, fun h => by cases h⟩
  | idle =>
    rw [hpc] at hst
    cases hst
  | readDivider | rereadDivider | readDividerAgain _ =>
    rw [hpc] at hst
    exact .inl ⟨Option.some.inj hst ▸ ⟨rfl, rfl, fun h => by cases h⟩, fun _ h => by cases h⟩

/-- What one access does to the list of values and to the calls of `consume`. -/
inductive ListStep (q q' : LockFreeQueue α) (e : QueueEvent α) : Prop where
  /-- Nothing happens. No `consume` returns, and one that goes on from its test has something to take. -/
  | keep (hr : q'.sh.results = q.sh.results) (hcall : q'.cons = .idle → q.cons = .idle)
      (htest : ∀ d, e = .cons → q.cons = .compare d → q.sh.consumed ≠ q.sh.published) (h : q'.content = q.content)
  /-- `produce` publishes its value. -/
  | push (t : α) (n : ℕ) (he : e = .prod) (hpc : q.prod = .publish t n) (hr : q'.sh.results = q.sh.results)
      (hcall : q'.cons = q.cons) (hpub : q'.sh.published = q.sh.published ++ [t])
      (h : q'.content = q.content ++ [t])
  /-- `consume` returns false: every value that was published is consumed. -/
  | empty (he : e = .cons) (hcall : q.cons ≠ .idle ∧ q'.cons = .idle)
      (hr : q'.sh.results = q.sh.results ++ [none]) (hall : q.sh.consumed = q.sh.published)
      (h : q.content = [] ∧ q'.content = [])
  /-- `consume` returns true with the front. -/
  | pop (v : α) (he : e = .cons) (hcall : q.cons ≠ .idle ∧ q'.cons = .idle)
      (hr : q'.sh.results = q.sh.results ++ [some v]) (h : q.content = v :: q'.content)

theorem SameStream.content (h : SameStream q q') : q'.content = q.content := by
  unfold LockFreeQueue.content Shared.consumed
  rw [h.published, h.results]

/-- An access outside `consume` that keeps the values. -/
theorem SameStream.listStep {e : QueueEvent α} (h : SameStream q q') (he : e ≠ .cons) : ListStep q q' e :=
  .keep h.results h.calls (fun _ hc => absurd hc he) h.content

/-- Everything published is consumed exactly if nothing is in the queue. -/
theorem SharedOK.all_consumed_iff (h : SharedOK q.sh garbage pending) :
    q.sh.consumed = q.sh.published ↔ q.content = [] := by
  rw [h.content, h.stream, List.self_eq_append_right]

/-- The test of `consume` sees an empty list exactly if it is one. -/
theorem QueueOK.compare_iff (h : QueueOK q garbage pending) {d : ℕ} (hd : q.cons = .compare d) :
    q.sh.addr d = q.sh.addr q.sh.last ↔ q.content = [] := by
  have hcons := h.cons
  rw [hd] at hcons
  rw [show d = q.sh.divider from hcons, h.shared.content]
  constructor
  · intro haddr
    -- the divider is at the end of the chain
    have hahead := h.shared.ahead
    rw [h.shared.divider_eq_last haddr] at hahead
    exact h.shared.seg_self hahead
  · rintro rfl
    rw [show q.sh.divider = q.sh.last from h.shared.ahead]

theorem consStep_list (h : QueueOK q garbage pending) (hst : q.consStep = some q') : ListStep q q' .cons := by
  rcases consStep_stream hst with ⟨hsame, hgo⟩ | ⟨d, hpc, haddr, rfl⟩ | ⟨v, n, hpc, rfl⟩
  · refine .keep hsame.results hsame.calls (fun d _ hd hall => ?_) hsame.content
    exact hgo d hd ((h.compare_iff hd).2 (h.shared.all_consumed_iff.1 hall))
  · have hempty := (h.compare_iff hpc).1 haddr
    refine .empty rfl ⟨by rw [hpc]; simp, rfl⟩ rfl (h.shared.all_consumed_iff.2 hempty) ⟨hempty, ?_⟩
    unfold LockFreeQueue.content at hempty ⊢
    rw [consumed_returns_none]
    exact hempty
  · have hv := h.cons
    rw [hpc] at hv
    obtain ⟨rest, rfl⟩ := List.head?_eq_some_iff.1 hv.1
    refine .pop v rfl ⟨by rw [hpc]; simp, rfl⟩ rfl ?_
    have hsplit : q.sh.published = q.sh.consumed ++ [v] ++ rest := by rw [h.shared.stream, List.append_cons]
    have hrest : q.sh.published.drop (q.sh.consumed ++ [v]).length = rest := by rw [hsplit, List.drop_left]
    rw [h.shared.content]
    unfold LockFreeQueue.content
    rw [consumed_returns_some]
    exact congrArg (v :: ·) hrest.symm

/-- **For its users, the queue is a list**: every access is one step on it. -/
theorem step_list {e : QueueEvent α} (h : QueueOK q garbage pending) (hst : q.step e = some q') :
    ListStep q q' e := by
  have hst' := hst
  unfold LockFreeQueue.step at hst'
  rw [if_neg (by rw [h.sound]; decide)] at hst'
  cases e with
  | produce t =>
    cases hpc : q.prod <;> simp only [hpc, reduceCtorEq, Option.some.injEq] at hst'
    subst hst'
    exact SameStream.listStep ⟨rfl, rfl, id⟩ (by simp)
  | alloc a =>
    cases hpc : q.prod <;> simp only [hpc, reduceCtorEq, Option.ite_none_right_eq_some, Option.some.injEq] at hst'
    obtain ⟨-, rfl⟩ := hst'
    exact SameStream.listStep ⟨rfl, rfl, id⟩ (by simp)
  | consume =>
    cases hpc : q.cons <;> simp only [hpc, reduceCtorEq, Option.some.injEq] at hst'
    subst hst'
    exact SameStream.listStep ⟨rfl, rfl, fun h => by cases h⟩ (by simp)
  | prod =>
    rcases prodStep_stream hst' with hsame | ⟨t, n, hpc, hpub, hres, hcons⟩
    · exact hsame.listStep (by simp)
    · refine .push t n rfl hpc hres hcons hpub ?_
      have hcon : q'.sh.consumed = q.sh.consumed := congrArg List.reduceOption hres
      unfold LockFreeQueue.content
      rw [hpub, hcon, h.shared.stream, List.append_assoc, List.drop_left, List.drop_left]
  | cons => exact consStep_list h hst'

end Content

/-! ## Runs -/

theorem init_queue_ok [Inhabited α] (a : ℕ) : QueueOK (LockFreeQueue.init (α := α) a) [] [] := by
  have hheap : ∀ p, (LockFreeQueue.init (α := α) a).sh.heap p = if p = 0 then some ⟨default, none⟩ else none := by
    intro p; simp only [LockFreeQueue.init, Function.update_apply]
  have hlive : ∀ p, ((LockFreeQueue.init (α := α) a).sh.heap p).isSome → p = 0 := by
    intro p hp
    by_contra hne
    rw [hheap, if_neg hne] at hp
    cases hp
  refine ⟨⟨rfl, rfl, rfl, ?_, ?_, ?_, ?_, ?_, List.nodup_nil⟩, ⟨rfl, default, ?_⟩, trivial, trivial, rfl⟩
  · rw [hheap]; rfl
  · intro p hp; rw [hlive p hp]; exact Nat.one_pos
  · intro p w n hp
    rw [hheap] at hp
    split at hp
    · cases hp
    · cases hp
  · intro p q hp hq _; rw [hlive p hp, hlive q hq]
  · intro p hp; cases hp
  · exact hheap 0

theorem queue_always_ok [Inhabited α] (a : ℕ) (es : List (QueueEvent α)) :
    Always LockFreeQueue.step (fun q : LockFreeQueue α => ∃ garbage pending, QueueOK q garbage pending)
      (LockFreeQueue.init a) es :=
  always (fun _ _ _ => step_queue_ok) ⟨[], [], init_queue_ok a⟩

/-- Published values are produced values; at most the one in the making is missing. -/
theorem TailOK.published_prefix {pc : Producer α} (h : TailOK s pc) : s.published <+: s.produced := by
  have hcase : s.produced = s.published ∨ ∃ t, s.produced = s.published ++ [t] := by
    cases pc with
    | alloc t => exact Or.inr ⟨t, h.1⟩
    | readLast t n => exact Or.inr ⟨t, h.1⟩
    | link t n l => exact Or.inr ⟨t, h.1⟩
    | rereadLast t => exact Or.inr ⟨t, h.1⟩
    | readNext t l => exact Or.inr ⟨t, h.1⟩
    | publish t n => exact Or.inr ⟨t, h.1⟩
    | _ => exact Or.inl h.1
  rcases hcase with he | ⟨t, he⟩
  · exact ⟨[], by rw [List.append_nil, he]⟩
  · exact ⟨[t], he.symm⟩

/-- **`LockFreeQueue` is a FIFO queue.** In every state of every interleaving of one
producer and one consumer: the values of the successful `consume` calls are a prefix of
the values produced. Every access is a step of a list: `produce` appends its value when it
publishes it, a `consume` that returns true takes the front, one that returns false does so
when every published value is consumed, and all other accesses change neither the values nor
the results. No thread has followed a pointer to a deleted node or a NULL pointer or
deleted a deleted node, and no node is in the record of deletions twice. -/
theorem queue_fifo [Inhabited α] (a : ℕ) (es : List (QueueEvent α)) :
    Always LockFreeQueue.step
      (fun q => q.sh.consumed <+: q.sh.produced ∧
        (∀ e q', q.step e = some q' → ListStep q q' e) ∧
        q.fault = false ∧ q.sh.deleted.Nodup)
      (LockFreeQueue.init a) es := by
  refine (queue_always_ok a es).mono ?_
  rintro q ⟨garbage, pending, hok⟩
  have hpub : q.sh.consumed <+: q.sh.published := by rw [hok.shared.stream]; exact List.prefix_append _ _
  exact ⟨hpub.trans hok.tail.published_prefix, fun e q' hst => step_list hok hst, hok.sound, hok.shared.once⟩

end Spigeon
