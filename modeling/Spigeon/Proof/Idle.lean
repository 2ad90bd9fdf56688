import Spigeon.Proof.Worker

/-!
# The idle timer and connections that move bytes

`process_timeout` compares the clock with the time stamp of the connection. A stamp is
set by every read event and by a write event that empties the reply list; a write event
that moves bytes and then would block sets none.

* `IdleOK`: stamps of watched connections are not older than the last transfer.
* `idle_timer_spares_active`: along every run with a non-decreasing clock and without
  such write events, the timer closes no connection that moved a byte within the
  timeout.
* `timer_closes_slow_reader`: the other write events.
-/

namespace Spigeon

open CInt Lts

/-- A connection closed by the timer has not moved a byte within the timeout. -/
def Timed.Apart (timeout : ℕ) : Timed → Timed → Prop
  | .transfer i t₀, .expire j t => i = j → timeout < t - t₀
  | _, _ => True

instance (timeout : ℕ) : ∀ a b : Timed, Decidable (a.Apart timeout b)
  | .transfer i t₀, .expire j t => inferInstanceAs (Decidable (i = j → timeout < t - t₀))
  | .transfer _ _, .transfer _ _ => isTrue trivial
  | .expire _ _, .transfer _ _ => isTrue trivial
  | .expire _ _, .expire _ _ => isTrue trivial

structure IdleOK (timeout : ℕ) (w : Worker) : Prop where
  timeout_eq : w.connectionTimeout = timeout
  nodup : w.watched.Nodup
  created : ∀ id ∈ w.watched, id < w.objs.length
  stamps : ∀ c ∈ w.objs, c.last ≤ w.now
  transfers : ∀ id t, Timed.transfer id t ∈ w.times → id < w.objs.length ∧ t ≤ w.now
  stamped : ∀ id c t, id ∈ w.watched → w.objs[id]? = some c → Timed.transfer id t ∈ w.times → t ≤ c.last
  apart : w.times.Pairwise (Timed.Apart timeout)

variable {timeout : ℕ} {w w' : Worker} {id : ℕ} {c c' : Conn}

/-- The record after a callback that may have moved bytes. -/
theorem visit_times (w : Worker) (id : ℕ) (c : Conn) (bytes : List UInt8) :
    (bytes = [] ∧ (w.visit id c bytes).times = w.times) ∨
      (w.visit id c bytes).times = w.times ++ [.transfer id w.now] := by
  unfold Worker.visit
  by_cases hb : bytes = []
  · left; exact ⟨hb, if_pos hb⟩
  · right; exact if_neg hb

theorem apart_transfer {l : List Timed} (h : l.Pairwise (Timed.Apart timeout)) (id t : ℕ) :
    (l ++ [Timed.transfer id t]).Pairwise (Timed.Apart timeout) := by
  refine List.pairwise_append.2 ⟨h, List.pairwise_singleton _ _, ?_⟩
  intro a _ b hb
  rw [List.mem_singleton.1 hb]
  cases a <;> trivial

theorem mem_set_last (h : ∀ c ∈ w.objs, c.last ≤ w.now) (hc : c'.last ≤ w.now) (i : ℕ) :
    ∀ c ∈ w.objs.set i c', c.last ≤ w.now := by
  intro c hm
  rcases List.mem_or_eq_of_mem_set hm with hm | rfl
  · exact h c hm
  · exact hc

theorem last_le (h : IdleOK timeout w) (hobj : w.objs[id]? = some c) : c.last ≤ w.now :=
  h.stamps c (List.mem_of_getElem? hobj)

/-- A callback that stamps the connection, or moves no byte. -/
theorem idle_visit (h : IdleOK timeout w) (hobj : w.objs[id]? = some c) (bytes : List UInt8)
    (hlast : c'.last = w.now ∨ c'.last = c.last ∧ bytes = []) : IdleOK timeout (w.visit id c' bytes) := by
  have hlen : (w.visit id c' bytes).objs.length = w.objs.length := by simp only [Worker.visit, List.length_set]
  have hid := (List.getElem?_eq_some_iff.1 hobj).1
  have hle : c'.last ≤ w.now := by
    have := last_le h hobj
    rcases hlast with hl | ⟨hl, -⟩ <;> omega
  have hmem : ∀ i t, Timed.transfer i t ∈ (w.visit id c' bytes).times →
      Timed.transfer i t ∈ w.times ∨ (i = id ∧ t = w.now ∧ bytes ≠ []) := by
    intro i t hm
    simp only [Worker.visit] at hm
    split at hm
    · exact Or.inl hm
    · rename_i hne
      rcases List.mem_append.1 hm with hm | hm
      · exact Or.inl hm
      · rw [List.mem_singleton, Timed.transfer.injEq] at hm
        exact Or.inr ⟨hm.1, hm.2, hne⟩
  refine ⟨h.timeout_eq, h.nodup, ?_, mem_set_last h.stamps hle id, ?_, ?_, ?_⟩
  · intro i hi; rw [hlen]; exact h.created i hi
  · intro i t hm
    rw [hlen]
    rcases hmem i t hm with hm | ⟨rfl, rfl, -⟩
    · exact h.transfers i t hm
    · exact ⟨hid, le_refl _⟩
  · intro i d t hi hd hm
    simp only [Worker.visit, List.getElem?_set] at hd
    by_cases he : id = i
    · subst he
      rw [if_pos rfl, if_pos hid, Option.some.injEq] at hd
      subst hd
      rcases hmem id t hm with hm | ⟨-, rfl, hne⟩
      · -- an old transfer: the stamp did not go back
        have h1 := h.stamped id c t hi hobj hm
        have h2 := (h.transfers id t hm).2
        rcases hlast with hl | ⟨hl, -⟩ <;> omega
      · rcases hlast with hl | ⟨-, hb⟩
        · omega
        · exact absurd hb hne
    · rw [if_neg he] at hd
      rcases hmem i t hm with hm | ⟨rfl, -, -⟩
      · exact h.stamped i d t hi hd hm
      · exact absurd rfl he
  · rcases visit_times w id c' bytes with ⟨-, ht⟩ | ht
    · rw [ht]; exact h.apart
    · rw [ht]; exact apart_transfer h.apart id w.now

/-- A connection that goes: it is no longer watched, whatever was moved before. -/
theorem idle_gone (h : IdleOK timeout w) (hid : id < w.objs.length) (hlast : c'.last = w.now)
    (htimeout : w'.connectionTimeout = w.connectionTimeout) (hnow : w'.now = w.now)
    (hobjs : w'.objs = w.objs.set id c') (hwatched : w'.watched = w.watched.erase id)
    (htimes : w'.times = w.times ∨ w'.times = w.times ++ [.transfer id w.now]) : IdleOK timeout w' := by
  have hmem : ∀ i t, Timed.transfer i t ∈ w'.times → Timed.transfer i t ∈ w.times ∨ (i = id ∧ t = w.now) := by
    intro i t hm
    rcases htimes with ht | ht
    · rw [ht] at hm; exact Or.inl hm
    · rw [ht, List.mem_append, List.mem_singleton, Timed.transfer.injEq] at hm; exact hm
  have hsub : ∀ i, i ∈ w'.watched → i ≠ id ∧ i ∈ w.watched := by
    intro i hi
    rw [hwatched] at hi
    exact h.nodup.mem_erase_iff.1 hi
  refine ⟨htimeout.trans h.timeout_eq, by rw [hwatched]; exact h.nodup.erase id, ?_, ?_, ?_, ?_, ?_⟩
  · intro i hi
    rw [hobjs, List.length_set]; exact h.created i (hsub i hi).2
  · rw [hobjs, hnow]; exact mem_set_last h.stamps hlast.le id
  · intro i t hm
    rw [hobjs, List.length_set, hnow]
    rcases hmem i t hm with hm | ⟨rfl, rfl⟩
    · exact h.transfers i t hm
    · exact ⟨hid, le_refl _⟩
  · intro i d t hi hd hm
    obtain ⟨hne, hi⟩ := hsub i hi
    rw [hobjs, List.getElem?_set, if_neg (Ne.symm hne)] at hd
    rcases hmem i t hm with hm | ⟨rfl, -⟩
    · exact h.stamped i d t hi hd hm
    · exact absurd rfl hne
  · rcases htimes with ht | ht
    · rw [ht]; exact h.apart
    · rw [ht]; exact apart_transfer h.apart id w.now

theorem idle_close (h : IdleOK timeout w) (hobj : w.objs[id]? = some c) : IdleOK timeout (w.closeConn id c) :=
  idle_gone h (List.getElem?_eq_some_iff.1 hobj).1 (c.last_stamp w.now) rfl rfl rfl rfl (Or.inl rfl)

/-- A callback that ends with the connection removed. -/
theorem idle_visit_gone (h : IdleOK timeout w) (hobj : w.objs[id]? = some c) {bytes : List UInt8}
    (htimeout : w'.connectionTimeout = w.connectionTimeout) (hnow : w'.now = w.now)
    (hobjs : w'.objs = (w.visit id c' bytes).objs.set id (c'.stamp w.now))
    (hwatched : w'.watched = w.watched.erase id) (htimes : w'.times = (w.visit id c' bytes).times) :
    IdleOK timeout w' := by
  have hset : w'.objs = w.objs.set id (c'.stamp w.now) := by
    rw [hobjs]; simp only [Worker.visit, List.set_set]
  have hrec : w'.times = w.times ∨ w'.times = w.times ++ [.transfer id w.now] := by
    rw [htimes]
    rcases visit_times w id c' bytes with ⟨-, ht⟩ | ht
    · exact Or.inl ht
    · exact Or.inr ht
  exact idle_gone h (List.getElem?_eq_some_iff.1 hobj).1 (c'.last_stamp w.now) htimeout hnow hset hwatched hrec

/-! ## Steps -/

/-- The task is a write event that moves bytes and then would block. -/
def TaskStalls (w : Worker) : Task → Prop
  | .writeIo fd ks => Stalls w fd ks
  | _ => False

instance (w : Worker) : ∀ t : Task, Decidable (TaskStalls w t)
  | .writeIo fd ks => inferInstanceAs (Decidable (Stalls w fd ks))
  | .readIo _ _ => isFalse fun h => h
  | .returned _ _ => isFalse fun h => h
  | .close _ _ => isFalse fun h => h
  | .closeSlot _ => isFalse fun h => h

theorem exec_idle {t : Task} (h : IdleOK timeout w) (hno : ¬ TaskStalls w t) (hst : w.exec t = some w') :
    IdleOK timeout w' := by
  rcases exec_cases hst with rfl | ⟨i, fd, rfl, rfl⟩ | ⟨i, ret, d, rfl, hobj, rfl⟩ | ⟨fd, i, d, hlook, hobj, hf⟩
  · exact h
  · exact ⟨h.timeout_eq, h.nodup, h.created, h.stamps, h.transfers, h.stamped, h.apart⟩
  · exact idle_close h hobj
  · cases hf with
    | visited hv =>
      cases hv with
      | stay hfd hlast => exact idle_visit h hobj _ hlast
      | close hfd => exact idle_visit_gone h hobj rfl rfl rfl rfl rfl
      | @returns d' bytes ret hfd hlast =>
        have hv := idle_visit h hobj bytes (Or.inl hlast)
        exact ⟨hv.timeout_eq, hv.nodup, hv.created, hv.stamps, hv.transfers, hv.stamped, hv.apart⟩
    | slot hw => rw [hw]; exact idle_close h hobj
    | handler ht ha hrem htcp =>
      cases hrem with
      | tcpClose hfd hc => exact idle_visit_gone h hobj rfl rfl rfl rfl rfl
      | tcpRemove hfd hc => exact idle_visit_gone h hobj rfl rfl rfl rfl rfl
      | udpRemove hfd => exact idle_visit_gone h hobj rfl rfl rfl rfl rfl
    | stalled ht hs hfd hlast hw =>
      rw [ht] at hno
      exact absurd hs hno

/-- **A connection the timer closes has been idle.** -/
theorem expired_apart (h : IdleOK timeout w) (hid : id ∈ w.watched) (hobj : w.objs[id]? = some c)
    (hexp : w.expired c) : ∀ a ∈ w.times, a.Apart timeout (.expire id w.now) := by
  intro a ha
  cases a with
  | expire i t => trivial
  | transfer i t =>
    rintro rfl
    have hstamp := h.stamped i c t hid hobj ha
    have hle := last_le h hobj
    unfold Worker.expired at hexp
    rw [h.timeout_eq] at hexp
    -- the unsigned difference is at most the real one
    have hsize : toSize ((w.now : ℤ) - c.base.lastInteraction) ≤ w.now - c.last := by
      unfold toSize Conn.last at *; omega
    omega

theorem processTimeout_idle (h : IdleOK timeout w) (hid : id ∈ w.watched) (hobj : w.objs[id]? = some c) :
    IdleOK timeout (w.processTimeout id c) := by
  have hv : IdleOK timeout (w.visit id c []) := idle_visit h hobj [] (Or.inr ⟨rfl, rfl⟩)
  have htimes : (w.visit id c []).times = w.times := by simp only [Worker.visit, if_true]
  unfold Worker.processTimeout
  dsimp only
  split
  · rename_i hexp
    have hmem : ∀ i t, Timed.transfer i t ∈ (w.visit id c []).times ++ [.expire id w.now] →
        Timed.transfer i t ∈ (w.visit id c []).times := by
      intro i t hm
      rcases List.mem_append.1 hm with hm | hm
      · exact hm
      · rw [List.mem_singleton] at hm; cases hm
    refine idle_close ⟨hv.timeout_eq, hv.nodup, hv.created, hv.stamps,
      fun i t hm => hv.transfers i t (hmem i t hm), fun i d t hi hd hm => hv.stamped i d t hi hd (hmem i t hm),
      ?_⟩ (visit_obj hobj [])
    refine List.pairwise_append.2 ⟨hv.apart, List.pairwise_singleton _ _, ?_⟩
    intro a ha b hb
    rw [htimes] at ha
    rw [List.mem_singleton.1 hb]
    exact expired_apart h hid hobj hexp a ha
  · exact hv

theorem createConnection_idle (h : IdleOK timeout w) (s : Socket) : IdleOK timeout (w.createConnection s) := by
  obtain ⟨d, hobjs, -, hlast⟩ := createConnection_objs (w := w) s
  have hlen : (w.createConnection s).objs.length = w.objs.length + 1 := by
    rw [hobjs, List.length_append]; rfl
  have hnew : w.objs.length ∉ w.watched := fun hm => absurd (h.created _ hm) (lt_irrefl _)
  refine ⟨h.timeout_eq, List.nodup_cons.2 ⟨hnew, h.nodup⟩, ?_, ?_, ?_, ?_, h.apart⟩
  · intro i hi
    rw [hlen]
    rcases List.mem_cons.1 hi with rfl | hi
    · exact Nat.lt_succ_self _
    · exact Nat.lt_succ_of_lt (h.created i hi)
  · intro e he
    rw [hobjs] at he
    rcases List.mem_append.1 he with he | he
    · exact h.stamps e he
    · rw [List.mem_singleton.1 he]; exact hlast.le
  · intro i t hm
    obtain ⟨h1, h2⟩ := h.transfers i t hm
    rw [hlen]; exact ⟨Nat.lt_succ_of_lt h1, h2⟩
  · intro i e t hi he hm
    have hlt := (h.transfers i t hm).1
    rw [hobjs, List.getElem?_append_left hlt] at he
    rcases List.mem_cons.1 hi with rfl | hi
    · exact absurd hlt (lt_irrefl _)
    · exact h.stamped i e t hi he hm

/-- The clock does not go back. -/
def ClockForward (w : Worker) : WorkerEvent → Prop
  | .clock now => w.now ≤ now
  | _ => True

instance (w : Worker) : ∀ e : WorkerEvent, Decidable (ClockForward w e)
  | .clock now => inferInstanceAs (Decidable (w.now ≤ now))
  | .create _ => isTrue trivial
  | .io _ _ _ _ _ => isTrue trivial
  | .timer _ => isTrue trivial
  | .reply _ _ => isTrue trivial
  | .stop => isTrue trivial
  | .next => isTrue trivial

theorem step_idle {e : WorkerEvent} (h : IdleOK timeout w) (hclock : ClockForward w e)
    (hno : ¬ Runs TaskStalls w e) (hst : w.step e = some w') : IdleOK timeout w' := by
  -- the tasks to come do not matter
  have htasks : ∀ ts : List Task, IdleOK timeout { w with todo := ts } := fun _ =>
    ⟨h.timeout_eq, h.nodup, h.created, h.stamps, h.transfers, h.stamped, h.apart⟩
  have hmove := worker_moves hst
  cases hmove with
  | next htodo hexec =>
    rename_i t ts
    refine exec_idle (htasks ts) (fun hs => hno (runs_next htodo ?_)) hexec
    cases t <;> exact hs
  | clock hidle =>
    rename_i now
    have hle : w.now ≤ now := hclock
    refine ⟨h.timeout_eq, h.nodup, h.created, ?_, ?_, h.stamped, h.apart⟩
    · intro d hd; exact le_trans (h.stamps d hd) hle
    · intro i t hm
      obtain ⟨hlt, ht⟩ := h.transfers i t hm
      exact ⟨hlt, le_trans ht hle⟩
  | create hidle => exact createConnection_idle h _
  | io hidle hts => exact htasks _
  | timer hidle hid hobj => exact processTimeout_idle h hid hobj
  | reply hidle hid hobj => exact idle_visit h hobj [] (Or.inr ⟨Conn.last_addReply _ _, rfl⟩)
  | stop hidle hts => exact htasks _

/-! ## Runs -/

theorem init_idle (timeout : ℕ) (ssl : Bool) (now : ℕ) : IdleOK timeout (Worker.init timeout ssl now) := by
  refine ⟨rfl, List.nodup_nil, ?_, ?_, ?_, ?_, List.Pairwise.nil⟩
  · intro i hi; cases hi
  · intro d hd; cases hd
  · intro i t hm; cases hm
  · intro i d t hi; cases hi

/-- **The idle timer spares active connections**, in every run with a non-decreasing clock
in which no write event moves bytes and then would block: when `process_timeout` closes a
TCP connection, more than `connection_timeout` has passed since every transfer on it. -/
theorem idle_timer_spares_active (timeout : ℕ) (ssl : Bool) (now : ℕ) {es : List WorkerEvent}
    (hclock : Along Worker.step ClockForward (Worker.init timeout ssl now) es)
    (hno : Along Worker.step (fun w e => ¬ Runs TaskStalls w e) (Worker.init timeout ssl now) es) :
    Always Worker.step (fun w => w.times.Pairwise (Timed.Apart timeout)) (Worker.init timeout ssl now) es := by
  have hall : Always Worker.step (IdleOK timeout) (Worker.init timeout ssl now) es :=
    always_along (fun w e w' h hc hst => step_idle h hc.1 hc.2 hst) (init_idle timeout ssl now) (hclock.and hno)
  exact hall.mono fun w h => h.apart

/-- A reply of three bytes is queued on the connection 0 at time 0; at time 9 the socket
gives the answers to a write event; the timer looks at time 11. -/
def slowReader (answers : List Sink) : List WorkerEvent :=
  [.create ⟨0, .tcp, 7⟩, .reply 0 ⟨0, [1, 2, 3], by decide⟩, .clock 9,
    .io 0 false true ⟨fun _ => 0, .again, .again, .close⟩ answers, .next, .clock 11, .timer 0]

/-- The socket takes the reply in two writes, and the timer leaves the connection. -/
theorem idle_timer_spares_reader :
    ∃ w, run Worker.step (Worker.init 10 false 0) (slowReader [.room 1, .room 2]) = some w ∧
      w.times = [.transfer 0 9] ∧ w.times.Pairwise (Timed.Apart 10) := by
  have hmap : (run Worker.step (Worker.init 10 false 0) (slowReader [.room 1, .room 2])).map Worker.times =
      some [.transfer 0 9] := by decide +kernel
  obtain ⟨w, hrun, htimes⟩ := Option.map_eq_some_iff.1 hmap
  exact ⟨w, hrun, htimes, (idle_timer_spares_active 10 false 0 (by decide +kernel) (by decide +kernel)).last hrun⟩

/-- The socket takes one byte and would block: two time units later the timer closes the
connection, with a timeout of ten. -/
theorem timer_closes_slow_reader :
    ∃ w, run Worker.step (Worker.init 10 false 0) (slowReader [.room 1, .again]) = some w ∧
      w.times = [.transfer 0 9, .expire 0 11] ∧ ¬ w.times.Pairwise (Timed.Apart 10) := by
  have hmap : (run Worker.step (Worker.init 10 false 0) (slowReader [.room 1, .again])).map Worker.times =
      some [.transfer 0 9, .expire 0 11] := by decide +kernel
  obtain ⟨w, hrun, htimes⟩ := Option.map_eq_some_iff.1 hmap
  refine ⟨w, hrun, htimes, ?_⟩
  rw [htimes]
  decide

end Spigeon
