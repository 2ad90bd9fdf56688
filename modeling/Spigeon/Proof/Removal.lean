import Spigeon.Lib.Lists
import Spigeon.Proof.Worker

/-!
# A connection is removed once and not used afterwards

The table, the watchers and the tasks of a worker only name connections that have not
been removed, as long as no TCP handler removes its connection: `tcp_read_io` closes a
connection whose handler returned anything but `WORKER_OK`, and `WORKER_CONNECTION_REMOVED`
is such a value.

* `WorkerOK`: the invariant. `visit_ok`, `removeConn_ok`, `closeConn_ok`: the three
  things done to a connection keep it.
* `removed_once`: along every run without a TCP handler that removes its connection.
* `handler_close_removes_twice`: what happens otherwise.
-/

namespace Spigeon

open Lifetime Lts

/-- The connection whose descriptor is about to be closed. -/
def Task.closeId : Task → Option ℕ
  | .close id _ => some id
  | _ => none

def Task.isReturned : Task → Bool
  | .returned _ _ => true
  | _ => false

/-- The connections removed by `close_conn` and not closed yet. -/
def Worker.closing (w : Worker) : List ℕ := w.todo.filterMap Task.closeId

structure WorkerOK (w : Worker) : Prop where
  /-- the table holds watched connections, each at its descriptor -/
  slot : ∀ fd id, w.lookup fd = some id → id ∈ w.watched ∧ ∃ c, w.objs[id]? = some c ∧ c.fd = fd
  created : ∀ id ∈ w.watched, id < w.objs.length
  nodup : w.watched.Nodup
  live : ∀ id ∈ w.watched, Act.drop id ∉ w.acts ∧ Act.shut id ∉ w.acts
  closing : w.closing.Nodup ∧ ∀ id ∈ w.closing, Act.shut id ∉ w.acts ∧ id ∉ w.watched
  past : ∀ id, Act.drop id ∈ w.acts ∨ Act.shut id ∈ w.acts ∨ id ∈ w.closing → id < w.objs.length
  sound : Sound w.acts

/-- No handler has just returned. -/
def Calm (w : Worker) : Prop := ∀ t ∈ w.todo, t.isReturned = false

/-- A handler has just returned, and its connection is still there. -/
def Returning (w : Worker) : Prop :=
  ∃ id ret ts, w.todo = .returned id ret :: ts ∧ id ∈ w.watched ∧ ∀ t ∈ ts, t.isReturned = false

variable {w w' : Worker} {id : ℕ} {c c' : Conn}

theorem lookup_eq_some {fd : ℕ} : w.lookup fd = some id ↔ w.conns[fd]? = some (some id) := by
  unfold Worker.lookup
  rw [Option.bind_eq_some_iff]
  constructor
  · rintro ⟨p, h, rfl⟩; exact h
  · intro h; exact ⟨some id, h, rfl⟩

/-! ## Working on a connection -/

@[simp] theorem drop_mem_visit {bytes : List UInt8} {i : ℕ} :
    Act.drop i ∈ (w.visit id c bytes).acts ↔ Act.drop i ∈ w.acts := by simp [Worker.visit]

@[simp] theorem shut_mem_visit {bytes : List UInt8} {i : ℕ} :
    Act.shut i ∈ (w.visit id c bytes).acts ↔ Act.shut i ∈ w.acts := by simp [Worker.visit]

@[simp] theorem drop_mem_removeConn {i : ℕ} :
    Act.drop i ∈ (w.removeConn id c).acts ↔ Act.drop i ∈ w.acts ∨ i = id := by simp [Worker.removeConn]

@[simp] theorem shut_mem_removeConn {i : ℕ} :
    Act.shut i ∈ (w.removeConn id c).acts ↔ Act.shut i ∈ w.acts := by simp [Worker.removeConn]

/-- Objects keep their descriptors when one of them is replaced by one with its own. -/
theorem obj_set (hobj : w.objs[id]? = some c) (hfd : c'.fd = c.fd) {i fd : ℕ}
    (h : ∃ c₀, w.objs[i]? = some c₀ ∧ c₀.fd = fd) : ∃ c₀, (w.objs.set id c')[i]? = some c₀ ∧ c₀.fd = fd := by
  obtain ⟨c₀, hobj₀, hfd₀⟩ := h
  by_cases he : id = i
  · subst he
    have hlt := (List.getElem?_eq_some_iff.1 hobj).1
    rw [hobj, Option.some.injEq] at hobj₀
    refine ⟨c', ?_, by rw [hfd, hobj₀]; exact hfd₀⟩
    rw [List.getElem?_set, if_pos rfl, if_pos hlt]
  · exact ⟨c₀, by rw [List.getElem?_set, if_neg he]; exact hobj₀, hfd₀⟩

theorem visit_ok (h : WorkerOK w) (hid : id ∈ w.watched) (hobj : w.objs[id]? = some c) (hfd : c'.fd = c.fd)
    (bytes : List UInt8) : WorkerOK (w.visit id c' bytes) := by
  have hlen : (w.visit id c' bytes).objs.length = w.objs.length := by simp only [Worker.visit, List.length_set]
  refine ⟨?_, ?_, h.nodup, ?_, ⟨h.closing.1, ?_⟩, ?_, h.sound.use (h.live id hid).1⟩
  · intro fd i hlook
    obtain ⟨hw, hex⟩ := h.slot fd i hlook
    exact ⟨hw, obj_set hobj hfd hex⟩
  · intro i hi; rw [hlen]; exact h.created i hi
  · intro i hi; rw [drop_mem_visit, shut_mem_visit]; exact h.live i hi
  · intro i hi; rw [shut_mem_visit]; exact h.closing.2 i hi
  · intro i hi; rw [drop_mem_visit, shut_mem_visit] at hi; rw [hlen]; exact h.past i hi

theorem visit_self (hobj : w.objs[id]? = some c) : w.visit id c [] = w.act (.use id) := by
  have hset : w.objs.set id c = w.objs := by
    obtain ⟨hlt, hget⟩ := List.getElem?_eq_some_iff.1 hobj
    rw [← hget, List.set_getElem_self]
  unfold Worker.visit Worker.act
  rw [hset, if_pos rfl]

/-- A task for the running callback other than a `close`. -/
theorem push_ok (h : WorkerOK w) {t : Task} (ht : t.closeId = none) : WorkerOK (w.push t) := by
  have hclosing : (w.push t).closing = w.closing := by
    unfold Worker.closing Worker.push; rw [List.filterMap_cons_none ht]
  refine ⟨h.slot, h.created, h.nodup, h.live, ?_, ?_, h.sound⟩
  · rw [hclosing]; exact h.closing
  · rw [hclosing]; exact h.past

/-! ## Removing a connection -/

/-- After `remove_conn` the table names the connection nowhere. -/
theorem lookup_removeConn (h : WorkerOK w) (hobj : w.objs[id]? = some c) {fd i : ℕ}
    (hlook : (w.removeConn id c).lookup fd = some i) : w.lookup fd = some i ∧ i ≠ id := by
  rw [lookup_eq_some] at hlook
  simp only [Worker.removeConn, List.getElem?_set] at hlook
  split at hlook
  · split at hlook
    · cases hlook
    · cases hlook
  · rename_i hne
    rw [← lookup_eq_some] at hlook
    refine ⟨hlook, ?_⟩
    rintro rfl
    obtain ⟨-, c₀, hobj₀, hfd₀⟩ := h.slot fd i hlook
    rw [hobj, Option.some.injEq] at hobj₀
    exact hne (by rw [hobj₀]; exact hfd₀)

theorem removeConn_ok (h : WorkerOK w) (hid : id ∈ w.watched) (hobj : w.objs[id]? = some c) :
    WorkerOK (w.removeConn id c) := by
  have hlen : (w.removeConn id c).objs.length = w.objs.length := by
    simp only [Worker.removeConn, List.length_set]
  have hmem : ∀ i, i ∈ (w.removeConn id c).watched ↔ i ≠ id ∧ i ∈ w.watched := by
    intro i; exact h.nodup.mem_erase_iff
  refine ⟨?_, ?_, h.nodup.erase id, ?_, ⟨h.closing.1, ?_⟩, ?_, h.sound.drop (h.live id hid).1⟩
  · intro fd i hlook
    obtain ⟨hlook, hne⟩ := lookup_removeConn h hobj hlook
    obtain ⟨hw, hex⟩ := h.slot fd i hlook
    exact ⟨(hmem i).2 ⟨hne, hw⟩, obj_set hobj (c.fd_stamp w.now) hex⟩
  · intro i hi
    rw [hlen]; exact h.created i ((hmem i).1 hi).2
  · intro i hi
    obtain ⟨hne, hi⟩ := (hmem i).1 hi
    obtain ⟨h1, h2⟩ := h.live i hi
    rw [drop_mem_removeConn, shut_mem_removeConn]
    exact ⟨fun hd => hd.elim h1 hne, h2⟩
  · intro i hi
    obtain ⟨h1, h2⟩ := h.closing.2 i hi
    rw [shut_mem_removeConn]
    exact ⟨h1, fun hm => h2 ((hmem i).1 hm).2⟩
  · intro i hi
    rw [drop_mem_removeConn, shut_mem_removeConn] at hi
    rw [hlen]
    rcases hi with (hi | rfl) | hi | hi
    · exact h.past i (Or.inl hi)
    · exact h.created i hid
    · exact h.past i (Or.inr (Or.inl hi))
    · exact h.past i (Or.inr (Or.inr hi))

/-- `close_conn` on a connection that is still there. -/
theorem closeConn_ok (h : WorkerOK w) (hid : id ∈ w.watched) (hobj : w.objs[id]? = some c) :
    WorkerOK (w.closeConn id c) := by
  -- the access, the removal, then the pending `close`
  have hvisit : WorkerOK (w.act (.use id)) := by
    rw [← visit_self hobj]; exact visit_ok h hid hobj rfl []
  have hrem := removeConn_ok (w := w.act (.use id)) hvisit hid hobj
  have hnot : id ∉ ((w.act (.use id)).removeConn id c).watched := fun hm => (h.nodup.mem_erase_iff.1 hm).1 rfl
  have hshut : Act.shut id ∉ ((w.act (.use id)).removeConn id c).acts := by
    rw [shut_mem_removeConn]; exact (hvisit.live id hid).2
  have hpend : id ∉ w.closing := fun hm => (h.closing.2 id hm).2 hid
  have hclosing : (w.closeConn id c).closing = id :: w.closing := rfl
  refine ⟨hrem.slot, hrem.created, hrem.nodup, hrem.live, ?_, ?_, hrem.sound⟩
  · rw [hclosing]
    refine ⟨List.nodup_cons.2 ⟨hpend, h.closing.1⟩, ?_⟩
    intro i hi
    rcases List.mem_cons.1 hi with rfl | hi
    · exact ⟨hshut, hnot⟩
    · exact hrem.closing.2 i hi
  · intro i hi
    rw [hclosing, List.mem_cons] at hi
    rcases hi with hi | hi | rfl | hi
    · exact hrem.past i (Or.inl hi)
    · exact hrem.past i (Or.inr (Or.inl hi))
    · exact hrem.past i (Or.inl (by rw [drop_mem_removeConn]; exact Or.inr rfl))
    · exact hrem.past i (Or.inr (Or.inr hi))

/-! ## Creating a connection -/

/-- Growing a table adds NULL entries only. -/
theorem roomFor_getElem? {α : Type} {l : List (Option α)} {fd i : ℕ} {a : α} :
    (roomFor l fd)[i]? = some (some a) ↔ l[i]? = some (some a) := by
  unfold roomFor resize
  split
  · rw [List.take_of_length_le (by omega)]
    by_cases hi : i < l.length
    · rw [List.getElem?_append_left hi]
    · rw [List.getElem?_append_right (by omega), List.getElem?_replicate, List.getElem?_eq_none (by omega)]
      split <;> simp
  · rfl

/-- An entry of a table in which a descriptor was entered. -/
theorem roomFor_set {α : Type} {l : List (Option α)} {fd i : ℕ} {a b : α}
    (h : ((roomFor l fd).set fd (some a))[i]? = some (some b)) :
    (i = fd ∧ b = a) ∨ (i ≠ fd ∧ l[i]? = some (some b)) := by
  rcases List.set_cases h with ⟨hi, hb⟩ | ⟨hi, hb⟩
  · exact Or.inl ⟨hi, Option.some.inj hb⟩
  · exact Or.inr ⟨hi, roomFor_getElem?.1 hb⟩

theorem roomFor_length {α : Type} {l : List (Option α)} (h : 0 < l.length) (fd : ℕ) :
    fd < (roomFor l fd).length ∧ 0 < (roomFor l fd).length := by
  unfold roomFor resize
  split
  · rw [List.length_append, List.length_take, List.length_replicate]; omega
  · omega

/-- A new connection takes the slot of its descriptor. -/
theorem lookup_createConnection {s : Socket} {fd i : ℕ} (h : (w.createConnection s).lookup fd = some i) :
    (i = w.objs.length ∧ fd = s.fd) ∨ w.lookup fd = some i := by
  rw [lookup_eq_some] at h
  rcases roomFor_set h with ⟨hfd, hi⟩ | ⟨-, hold⟩
  · exact Or.inl ⟨hi, hfd⟩
  · exact Or.inr (lookup_eq_some.2 hold)

theorem createConnection_ok (h : WorkerOK w) (s : Socket) : WorkerOK (w.createConnection s) := by
  obtain ⟨c, hobjs, hfd, -⟩ := createConnection_objs (w := w) s
  have hlen : (w.createConnection s).objs.length = w.objs.length + 1 := by
    rw [hobjs, List.length_append]; rfl
  have hnew : w.objs.length ∉ w.watched := fun hm => absurd (h.created _ hm) (lt_irrefl _)
  refine ⟨?_, ?_, List.nodup_cons.2 ⟨hnew, h.nodup⟩, ?_, ⟨h.closing.1, ?_⟩, ?_, h.sound⟩
  · intro fd i hlook
    rw [hobjs]
    rcases lookup_createConnection hlook with ⟨rfl, rfl⟩ | hlook
    · exact ⟨List.mem_cons_self, c, List.getElem?_concat_length, hfd⟩
    · obtain ⟨hw, c₀, hobj₀, hfd₀⟩ := h.slot fd i hlook
      refine ⟨List.mem_cons_of_mem _ hw, c₀, ?_, hfd₀⟩
      rw [List.getElem?_append_left (h.created i hw)]; exact hobj₀
  · intro i hi
    rw [hlen]
    rcases List.mem_cons.1 hi with rfl | hi
    · exact Nat.lt_succ_self _
    · exact Nat.lt_succ_of_lt (h.created i hi)
  · intro i hi
    rcases List.mem_cons.1 hi with rfl | hi
    · -- nothing has happened to the new connection yet
      exact ⟨fun hm => absurd (h.past _ (Or.inl hm)) (lt_irrefl _),
        fun hm => absurd (h.past _ (Or.inr (Or.inl hm))) (lt_irrefl _)⟩
    · exact h.live i hi
  · intro i hi
    obtain ⟨h1, h2⟩ := h.closing.2 i hi
    refine ⟨h1, fun hm => ?_⟩
    rcases List.mem_cons.1 hm with rfl | hm
    · exact absurd (h.past _ (Or.inr (Or.inr hi))) (lt_irrefl _)
    · exact h2 hm
  · intro i hi
    rw [hlen]
    exact Nat.lt_succ_of_lt (h.past i hi)

/-! ## Steps -/

/-- The next task leaves the list. -/
theorem pop_ok (h : WorkerOK w) {t : Task} {ts : List Task} (ht : w.todo = t :: ts) :
    WorkerOK { w with todo := ts } := by
  have hsub : List.Sublist (Worker.closing { w with todo := ts }) w.closing := by
    unfold Worker.closing
    rw [ht]
    exact (List.sublist_cons_self t ts).filterMap _
  refine ⟨h.slot, h.created, h.nodup, h.live, ⟨h.closing.1.sublist hsub, ?_⟩, ?_, h.sound⟩
  · intro i hi; exact h.closing.2 i (hsub.subset hi)
  · intro i hi
    exact h.past i (hi.imp_right (Or.imp_right fun hm => hsub.subset hm))

/-- The `close(fd)` of a removed connection. -/
theorem shut_ok (h : WorkerOK w) {fd : ℕ} {ts : List Task} (ht : w.todo = .close id fd :: ts) :
    WorkerOK (Worker.act { w with todo := ts } (.shut id)) := by
  have hclosing : w.closing = id :: Worker.closing { w with todo := ts } := by
    unfold Worker.closing; rw [ht]; rfl
  have hpop := pop_ok h ht
  have hnodup := h.closing.1
  rw [hclosing, List.nodup_cons] at hnodup
  obtain ⟨hshut, hnot⟩ := h.closing.2 id (by rw [hclosing]; exact List.mem_cons_self)
  have hdrop : ∀ i, Act.drop i ∈ (Worker.act { w with todo := ts } (.shut id)).acts ↔ Act.drop i ∈ w.acts := by
    intro i; simp [Worker.act]
  have hshuts : ∀ i, Act.shut i ∈ (Worker.act { w with todo := ts } (.shut id)).acts ↔
      Act.shut i ∈ w.acts ∨ i = id := by
    intro i; simp [Worker.act]
  -- the connection goes from the closing ones to those that are shut
  refine ⟨h.slot, h.created, h.nodup, ?_, ⟨hpop.closing.1, ?_⟩, ?_, h.sound.shut hshut⟩
  · intro i hi
    obtain ⟨h1, h2⟩ := h.live i hi
    rw [hdrop, hshuts]
    refine ⟨h1, fun hm => ?_⟩
    rcases hm with hm | rfl
    · exact h2 hm
    · exact hnot hi
  · intro i hi
    obtain ⟨h1, h2⟩ := hpop.closing.2 i hi
    rw [hshuts]
    refine ⟨fun hm => ?_, h2⟩
    rcases hm with hm | rfl
    · exact h1 hm
    · exact hnodup.1 hi
  · intro i hi
    rw [hdrop, hshuts] at hi
    rcases hi with hi | (hi | rfl) | hi
    · exact h.past i (Or.inl hi)
    · exact h.past i (Or.inr (Or.inl hi))
    · exact h.past i (Or.inr (Or.inr (by rw [hclosing]; exact List.mem_cons_self)))
    · exact hpop.past i (Or.inr (Or.inr hi))

/-- The task calls the handler of a TCP connection, and it removes it. -/
def TaskRemoves (w : Worker) : Task → Prop
  | .readIo fd env => HandlerRemoves w fd env
  | _ => False

instance (w : Worker) : ∀ t : Task, Decidable (TaskRemoves w t)
  | .readIo fd env => inferInstanceAs (Decidable (HandlerRemoves w fd env))
  | .writeIo _ _ => isFalse fun h => h
  | .returned _ _ => isFalse fun h => h
  | .close _ _ => isFalse fun h => h
  | .closeSlot _ => isFalse fun h => h

/-- The `close` of a removed connection comes first. -/
theorem Calm.close {fd : ℕ} (h : Calm w) (htodo : w'.todo = .close id fd :: w.todo) : Calm w' := by
  intro t ht
  rw [htodo] at ht
  rcases List.mem_cons.1 ht with rfl | ht
  · rfl
  · exact h t ht

/-- The invariant of a worker between two tasks. -/
def WorkerInv (w : Worker) : Prop := WorkerOK w ∧ (Calm w ∨ Returning w)

theorem visited_ok (h : WorkerOK w) (hcalm : Calm w) (hid : id ∈ w.watched) (hobj : w.objs[id]? = some c)
    (hv : Visited w id c w') : WorkerInv w' := by
  cases hv with
  | stay hfd _ => exact ⟨visit_ok h hid hobj hfd _, Or.inl hcalm⟩
  | close hfd => exact ⟨closeConn_ok (visit_ok h hid hobj hfd _) hid (visit_obj hobj _), Or.inl (hcalm.close rfl)⟩
  | returns ret hfd _ =>
    exact ⟨push_ok (visit_ok h hid hobj hfd _) rfl, Or.inr ⟨id, ret, w.todo, rfl, hid, hcalm⟩⟩

/-- A task other than a returning handler, with no TCP handler that removes. -/
theorem found_ok (h : WorkerOK w) (hcalm : Calm w) {t : Task} {fd : ℕ} (hlook : w.lookup fd = some id)
    (hobj : w.objs[id]? = some c) (hf : Found w t fd id c w')
    (hno : ∀ env, t = .readIo fd env → ¬ HandlerRemoves w fd env) : WorkerInv w' := by
  have hid := (h.slot fd id hlook).1
  cases hf with
  | visited hv => exact visited_ok h hcalm hid hobj hv
  | slot hw => rw [hw]; exact ⟨closeConn_ok h hid hobj, Or.inl (hcalm.close rfl)⟩
  | handler ht ha hrem htcp =>
    cases hrem with
    | tcpClose hfd hc => exact absurd (htcp hc) (hno _ ht)
    | tcpRemove hfd hc => exact absurd (htcp hc) (hno _ ht)
    | udpRemove hfd =>
      exact ⟨removeConn_ok (visit_ok h hid hobj hfd _) hid (visit_obj hobj _), Or.inl hcalm⟩
  | stalled ht hs hfd hlast hw => rw [hw]; exact ⟨visit_ok h hid hobj hfd _, Or.inl hcalm⟩

/-- The connection of a handler that has just returned is still there. -/
theorem returned_watched (h : WorkerInv w) {ret : ℤ} {ts : List Task} (htodo : w.todo = .returned id ret :: ts) :
    id ∈ w.watched := by
  rcases h.2 with hcalm | ⟨j, ret', us, hus, hj, -⟩
  · exact absurd (hcalm _ (by rw [htodo]; exact List.mem_cons_self)) Bool.noConfusion
  · rw [htodo, List.cons.injEq, Task.returned.injEq] at hus
    rw [hus.1.1]; exact hj

/-- **The next task of the running callback.** -/
theorem task_ok {t : Task} {ts : List Task} (h : WorkerInv w) (htodo : w.todo = t :: ts) (hno : ¬ TaskRemoves w t)
    (hexec : Worker.exec { w with todo := ts } t = some w') : WorkerInv w' := by
  have hpop := pop_ok h.1 htodo
  -- behind the first task no handler has returned
  have hcalm : Calm { w with todo := ts } := by
    intro u hu
    rcases h.2 with hcalm | ⟨i, ret, us, hus, -, hcalm⟩
    · exact hcalm u (by rw [htodo]; exact List.mem_cons_of_mem _ hu)
    · rw [htodo, List.cons.injEq] at hus
      exact hcalm u (by rw [← hus.2]; exact hu)
  rcases exec_cases hexec with hw | ⟨i, fd, rfl, hw⟩ | ⟨i, ret, c, rfl, hobj, hw⟩ | ⟨fd, i, c, hlook, hobj, hf⟩
  · rw [hw]; exact ⟨hpop, Or.inl hcalm⟩
  · rw [hw]; exact ⟨shut_ok h.1 htodo, Or.inl hcalm⟩
  · have hid := returned_watched h htodo
    rw [hw]; exact ⟨closeConn_ok hpop hid hobj, Or.inl (hcalm.close rfl)⟩
  · refine found_ok hpop hcalm hlook hobj hf ?_
    rintro env rfl hrem
    exact hno hrem

/-- A callback starts. -/
theorem start_callback_ok (h : WorkerOK w) (htodo : w.todo = []) {ts : List Task}
    (hts : ∀ t ∈ ts, t.closeId = none ∧ t.isReturned = false) : WorkerInv { w with todo := ts } := by
  have hclosing : Worker.closing { w with todo := ts } = w.closing := by
    unfold Worker.closing
    rw [htodo, List.filterMap_nil]
    exact List.filterMap_eq_nil_iff.2 fun t ht => (hts t ht).1
  refine ⟨⟨h.slot, h.created, h.nodup, h.live, ?_, ?_, h.sound⟩, Or.inl fun t ht => (hts t ht).2⟩
  · rw [hclosing]; exact h.closing
  · rw [hclosing]; exact h.past

theorem processTimeout_ok (h : WorkerOK w) (hcalm : Calm w) (hid : id ∈ w.watched) (hobj : w.objs[id]? = some c) :
    WorkerInv (w.processTimeout id c) := by
  have hv : WorkerOK (w.visit id c []) := visit_ok h hid hobj rfl []
  unfold Worker.processTimeout
  dsimp only
  split
  · exact ⟨closeConn_ok ⟨hv.slot, hv.created, hv.nodup, hv.live, hv.closing, hv.past, hv.sound⟩ hid
      (visit_obj hobj []), Or.inl (hcalm.close rfl)⟩
  · exact ⟨hv, Or.inl hcalm⟩

theorem step_worker_ok {e : WorkerEvent} (h : WorkerInv w) (hno : ¬ Runs TaskRemoves w e)
    (hst : w.step e = some w') :
    WorkerInv w' := by
  have hok := h.1
  have hcalm : w.todo = [] → Calm w := by
    intro hidle t ht
    rw [hidle] at ht
    cases ht
  have hmove := worker_moves hst
  cases hmove with
  | next htodo hexec => exact task_ok h htodo (fun hrem => hno (runs_next htodo hrem)) hexec
  | clock hidle =>
    exact ⟨⟨hok.slot, hok.created, hok.nodup, hok.live, hok.closing, hok.past, hok.sound⟩, Or.inl (hcalm hidle)⟩
  | create hidle => exact ⟨createConnection_ok hok _, Or.inl (hcalm hidle)⟩
  | io hidle hts =>
    refine start_callback_ok hok hidle ?_
    intro t ht
    rcases hts t ht with ⟨fd, rfl⟩ | ⟨fd, rfl⟩
    · exact ⟨rfl, rfl⟩
    · exact ⟨rfl, rfl⟩
  | timer hidle hid hobj => exact processTimeout_ok hok (hcalm hidle) hid hobj
  | reply hidle hid hobj => exact ⟨visit_ok hok hid hobj (Conn.fd_addReply _ _) [], Or.inl (hcalm hidle)⟩
  | stop hidle hts =>
    refine start_callback_ok hok hidle ?_
    intro t ht
    obtain ⟨fd, rfl⟩ := hts t ht
    exact ⟨rfl, rfl⟩

/-! ## Runs -/

theorem init_worker_ok (timeout : ℕ) (ssl : Bool) (now : ℕ) : WorkerInv (Worker.init timeout ssl now) := by
  have hlook : ∀ fd i, (Worker.init timeout ssl now).lookup fd ≠ some i := by
    intro fd i h
    rw [lookup_eq_some] at h
    simp only [Worker.init, List.getElem?_replicate] at h
    split at h
    · cases h
    · cases h
  refine ⟨⟨fun fd i h => absurd h (hlook fd i), ?_, List.nodup_nil, ?_, ⟨List.nodup_nil, ?_⟩, ?_,
    List.Pairwise.nil⟩, Or.inl ?_⟩
  · intro i hi; cases hi
  · intro i hi; cases hi
  · intro i hi; cases hi
  · rintro i (hi | hi | hi) <;> cases hi
  · intro t ht; cases ht

/-- **A connection is removed once and not used afterwards**, in every run in which no
TCP handler removes its connection: no object is accessed or removed after its removal,
and no descriptor of an object is closed twice. -/
theorem removed_once (timeout : ℕ) (ssl : Bool) (now : ℕ) {es : List WorkerEvent}
    (hno : Along Worker.step (fun w e => ¬ Runs TaskRemoves w e) (Worker.init timeout ssl now) es) :
    Always Worker.step (fun w => Sound w.acts) (Worker.init timeout ssl now) es := by
  have hall : Always Worker.step WorkerInv (Worker.init timeout ssl now) es :=
    always_along (fun _ _ _ => step_worker_ok) (init_worker_ok timeout ssl now) hno
  exact hall.mono fun w h => h.1.sound

/-- One byte arrives on the connection 0, whose handler gives the answer. -/
def oneByte (answer : Answer) : WorkerEvent := .io 0 true false ⟨fun _ => 0, .bytes 5 [], .again, answer⟩ []

/-- The handler fails, and the worker closes the connection. -/
theorem removed_once_failed_handler :
    ∃ w, run Worker.step (Worker.init 60 false 0)
        [.create ⟨0, .tcp, 7⟩, oneByte (.leave [.shrinkProcessed 0 1] WORKER_ERROR), .next, .next, .next] =
          some w ∧
      w.acts = [.use 0, .use 0, .drop 0, .shut 0] ∧ Sound w.acts := by
  have hmap : (run Worker.step (Worker.init 60 false 0)
      [.create ⟨0, .tcp, 7⟩, oneByte (.leave [.shrinkProcessed 0 1] WORKER_ERROR), .next, .next, .next]).map
        Worker.acts = some [.use 0, .use 0, .drop 0, .shut 0] := by decide +kernel
  obtain ⟨w, hrun, hacts⟩ := Option.map_eq_some_iff.1 hmap
  exact ⟨w, hrun, hacts, (removed_once 60 false 0 (by decide +kernel)).last hrun⟩

/-- The handler closes its connection and says so; `tcp_read_io` closes it again. -/
theorem handler_close_removes_twice :
    ∃ w, run Worker.step (Worker.init 60 false 0)
        [.create ⟨0, .tcp, 7⟩, oneByte .close, .next, .next, .next, .next] = some w ∧
      w.acts = [.use 0, .use 0, .drop 0, .shut 0, .use 0, .drop 0, .shut 0] ∧ ¬ Sound w.acts := by
  have hmap : (run Worker.step (Worker.init 60 false 0)
      [.create ⟨0, .tcp, 7⟩, oneByte .close, .next, .next, .next, .next]).map Worker.acts =
        some [.use 0, .use 0, .drop 0, .shut 0, .use 0, .drop 0, .shut 0] := by decide +kernel
  obtain ⟨w, hrun, hacts⟩ := Option.map_eq_some_iff.1 hmap
  refine ⟨w, hrun, hacts, ?_⟩
  rw [hacts]
  decide

end Spigeon
