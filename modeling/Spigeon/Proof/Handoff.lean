import Spigeon.Lib.Lists
import Spigeon.Lib.Lts
import Spigeon.Proof.System

/-!
# Hand-off of accepted sockets

A socket goes to a worker in two steps, into its queue and then as a message into its
pipe, and the worker pops one socket for each message. The two media stay in step unless
the second step fails: `dispatch_new_conn` then reports the failure and leaves the
socket in the queue.

* `Balanced`: the exact relation between the queue and the pipe of a worker, failed
  notifications included. `step_handoff_ok`: every step keeps it.
* `hand_off_iff`: no socket is stranded in any state of a run exactly if no
  notification fails in it.
* `failed_notify_strands`: a run with one failed notification.
-/

namespace Spigeon

open Lts

/-- The `NEW_CONNECTION` messages that are unread, or read and about to be processed. -/
def WorkerThread.pending (t : WorkerThread) : ℕ :=
  t.pipe.count .newConnection + if t.msg = some .newConnection then 1 else 0

/-- What a hand-off without losses looks like at one worker. -/
structure HandedOver (t : WorkerThread) : Prop where
  /-- one socket in the queue for each message -/
  queued : t.mq.length = t.pending
  /-- without messages every socket has got its connection -/
  complete : t.pending = 0 → t.created = t.dispatched
  /-- a failed `dispatch_new_conn` leaves nothing behind -/
  undone : ∀ sk ∈ t.rejected, sk ∉ t.mq ∧ sk ∉ t.created

/-- Outside of `dispatch_new_conn`, nothing is stranded at any worker. -/
def NothingStranded (s : System) : Prop := s.phase.isPushed = false → ∀ t ∈ s.threads, HandedOver t

/-- The dispatcher fails to notify a worker of a socket. -/
def NotifyFails (s : System) (e : SystemEvent) : Prop :=
  e = .notify false ∧ ∃ i sk t, s.phase = .pushed i sk ∧ s.threads[i]? = some t

/-! ## The invariant -/

/-- The number of messages that the dispatcher still owes to a worker. -/
def Phase.toNotify (p : Phase) (i : ℕ) : ℕ :=
  match p with
  | .pushed j _ => if i = j then 1 else 0
  | _ => 0

theorem Phase.toNotify_of_not_pushed {p : Phase} (h : p.isPushed = false) (i : ℕ) : p.toNotify i = 0 := by
  cases p with
  | pushed j sk => cases h
  | _ => rfl

/-- Queue and pipe of a worker to which `owed` messages are still to be written. -/
structure Balanced (t : WorkerThread) (owed : ℕ) : Prop where
  queued : t.mq.length = t.pending + t.rejected.length + owed
  order : t.dispatched = t.created ++ t.mq

/-- Every worker's queue and pipe, for the phase the dispatcher is in. -/
def HandoffOK (ts : List WorkerThread) (p : Phase) : Prop := ∀ i t, ts[i]? = some t → Balanced t (p.toNotify i)

variable {s s' : System} {t : WorkerThread} {owed : ℕ}

theorem Balanced.push (h : Balanced t 0) (sk : Socket) :
    Balanced { t with mq := t.mq ++ [sk], dispatched := t.dispatched ++ [sk] } 1 := by
  refine ⟨?_, ?_⟩
  · have hq : (t.mq ++ [sk]).length = t.pending + t.rejected.length + 1 := by
      rw [List.length_append, h.queued]; rfl
    exact hq
  · have ho : t.dispatched ++ [sk] = t.created ++ (t.mq ++ [sk]) := by
      rw [h.order, List.append_assoc]
    exact ho

theorem pending_write (t : WorkerThread) (m : Msg) :
    WorkerThread.pending { t with pipe := t.pipe ++ [m] } = t.pending + if m = .newConnection then 1 else 0 := by
  simp only [WorkerThread.pending, List.count_append, List.count_singleton, beq_iff_eq]
  omega

theorem Balanced.write {m : Msg} (h : Balanced t (owed + if m = .newConnection then 1 else 0)) :
    Balanced { t with pipe := t.pipe ++ [m] } owed := by
  refine ⟨?_, h.order⟩
  have hq := h.queued
  rw [pending_write]
  simp only
  omega

theorem Balanced.reject (h : Balanced t (owed + 1)) (sk : Socket) :
    Balanced { t with rejected := t.rejected ++ [sk] } owed := by
  refine ⟨?_, h.order⟩
  have hq : t.mq.length = t.pending + (t.rejected ++ [sk]).length + owed := by
    rw [h.queued, List.length_append, List.length_singleton]; omega
  exact hq

theorem Balanced.read {m : Msg} {ms : List Msg} (h : Balanced t owed) (hmsg : t.msg = none)
    (hpipe : t.pipe = m :: ms) :
    Balanced { t with pipe := ms, msg := some m } owed := by
  refine ⟨?_, h.order⟩
  have hq := h.queued
  unfold WorkerThread.pending at hq ⊢
  rw [hpipe, hmsg, List.count_cons] at hq
  simp only [reduceCtorEq, if_false, beq_iff_eq, Option.some.injEq] at hq ⊢
  omega

theorem Balanced.create {sk : Socket} {mq : List Socket} (h : Balanced t owed)
    (hmsg : t.msg = some .newConnection) (hmq : t.mq = sk :: mq) (w : Worker) :
    Balanced { t with worker := w, mq := mq, msg := none, created := t.created ++ [sk] } owed := by
  refine ⟨?_, ?_⟩
  · have hq := h.queued
    unfold WorkerThread.pending at hq ⊢
    rw [hmsg, hmq, List.length_cons, if_pos rfl] at hq
    simp only [reduceCtorEq, if_false]
    omega
  · have ho := h.order
    rw [hmq] at ho
    simp only [List.append_assoc, List.singleton_append]
    exact ho

/-- The worker is done with a message that took nothing from the queue. -/
theorem Balanced.ignore {m : Msg} (h : Balanced t owed) (hmsg : t.msg = some m)
    (hm : m = .newConnection → t.mq = []) :
    Balanced { t with msg := none } owed := by
  refine ⟨?_, h.order⟩
  have hq := h.queued
  unfold WorkerThread.pending at hq ⊢
  by_cases hnew : m = .newConnection
  · -- a message without a socket contradicts the balance
    rw [hmsg, hm hnew, hnew, if_pos rfl, List.length_nil] at hq
    omega
  · rw [hmsg, if_neg (by simpa using hnew)] at hq
    simp only [reduceCtorEq, if_false]
    omega

/-- A step at the worker `i`. -/
theorem HandoffOK.set {ts : List WorkerThread} {p p' : Phase} {i : ℕ} {t' : WorkerThread} (h : HandoffOK ts p)
    (hp : ∀ j, j ≠ i → p'.toNotify j = p.toNotify j) (ht' : Balanced t' (p'.toNotify i)) :
    HandoffOK (ts.set i t') p' := by
  intro j u hu
  rcases List.set_cases hu with ⟨rfl, rfl⟩ | ⟨hne, hu⟩
  · exact ht'
  · rw [hp j hne]; exact h j u hu

/-- **Every step keeps the balance**, a failed notification included. -/
theorem step_handoff_ok (s : System) (e : SystemEvent) (s' : System) (h : HandoffOK s.threads s.phase)
    (hst : s.step e = some s') : HandoffOK s'.threads s'.phase := by
  have hmove := step_moves hst
  -- a step of one worker while the dispatcher stays where it is
  have hset : ∀ {i : ℕ} {t' : WorkerThread}, Balanced t' (s.phase.toNotify i) →
      HandoffOK (s.threads.set i t') s.phase := fun ht' => h.set (fun _ _ => rfl) ht'
  have howed : ∀ (i : ℕ) (sk : Socket), (Phase.pushed i sk).toNotify i = 1 := fun i sk => if_pos rfl
  cases hmove with
  | accept hphase hfd => rw [hphase] at h; exact h
  | push hphase ht =>
    rename_i sk t
    have hb := h _ t ht
    rw [hphase] at h hb
    refine HandoffOK.set h (fun j hj => if_neg hj) ?_
    have hpush := Balanced.push hb sk
    rw [← howed s.nextWorker sk] at hpush
    exact hpush
  | notified hphase ht =>
    rename_i i sk t
    have hb := h i t ht
    rw [hphase] at h hb
    rw [howed] at hb
    exact HandoffOK.set h (fun j hj => (if_neg hj).symm) (Balanced.write hb)
  | unnotified hphase ht =>
    rename_i i sk t
    have hb := h i t ht
    rw [hphase] at h hb
    rw [howed] at hb
    exact HandoffOK.set h (fun j hj => (if_neg hj).symm) (Balanced.reject hb sk)
  | winds hfree hfree' he =>
    intro i t ht
    have hb := h i t ht
    rw [Phase.toNotify_of_not_pushed hfree.1] at hb
    rw [Phase.toNotify_of_not_pushed hfree'.1]
    exact hb
  | posts ht hp hm he =>
    rename_i p i t m
    have hsame : ∀ j, p.toNotify j = s.phase.toNotify j := by
      intro j
      rcases hp with hp | ⟨hfree, hfree'⟩
      · rw [hp]
      · rw [Phase.toNotify_of_not_pushed hfree.1, Phase.toNotify_of_not_pushed hfree'.1]
    refine HandoffOK.set h (fun j _ => hsame j) (Balanced.write ?_)
    rw [if_neg hm, hsame]
    exact h i t ht
  | recv ht hmsg hpipe => exact hset ((h _ _ ht).read hmsg hpipe)
  | create ht hmsg hmq hw => exact hset ((h _ _ ht).create hmsg hmq _)
  | ignores ht hmsg hm => exact hset ((h _ _ ht).ignore hmsg hm)
  | ends ht hmsg hw =>
    have hb := (h _ _ ht).ignore hmsg (fun hm => by cases hm)
    exact hset ⟨hb.queued, hb.order⟩
  | works ht hown hmsg hw =>
    have hb := h _ _ ht
    rw [shut_threads, shut_phase]
    exact hset ⟨hb.queued, hb.order⟩

theorem init_handoff_ok (kind : SockKind) (listenFd n timeout : ℕ) (ssl : Bool) (now : ℕ) :
    HandoffOK (System.init kind listenFd n timeout ssl now).threads .idle := by
  intro i t ht
  have ht := List.eq_of_mem_replicate (List.mem_of_getElem? ht)
  rw [ht]
  exact ⟨rfl, rfl⟩

/-! ## Runs -/

/-- No worker has been left without its notification. -/
def NoneRejected (s : System) : Prop := ∀ t ∈ s.threads, t.rejected = []

theorem step_none_rejected {e : SystemEvent} (h : NoneRejected s) (hno : ¬ NotifyFails s e)
    (hst : s.step e = some s') :
    NoneRejected s' := by
  have hset : ∀ {i : ℕ} {t t' : WorkerThread}, s.threads[i]? = some t → t'.rejected = t.rejected →
      ∀ u ∈ s.threads.set i t', u.rejected = [] := by
    intro i t t' ht heq u hu
    rcases List.mem_or_eq_of_mem_set hu with hu | rfl
    · exact h u hu
    · rw [heq]; exact h t (List.mem_of_getElem? ht)
  have hmove := step_moves hst
  cases hmove with
  | accept hphase hfd => exact h
  | push hphase ht => exact hset ht rfl
  | notified hphase ht => exact hset ht rfl
  | unnotified hphase ht => exact absurd ⟨rfl, _, _, _, hphase, ht⟩ hno
  | winds hfree hfree' he => exact h
  | posts ht hp hm he => exact hset ht rfl
  | recv ht hmsg hpipe => exact hset ht rfl
  | create ht hmsg hmq hw => exact hset ht rfl
  | ignores ht hmsg hm => exact hset ht rfl
  | ends ht hmsg hw => exact hset ht rfl
  | works ht hown hmsg hw =>
    unfold NoneRejected
    rw [shut_threads]
    exact hset ht rfl

theorem handedOver_of_balanced (h : Balanced t 0) (hrej : t.rejected = []) : HandedOver t := by
  have hq := h.queued
  rw [hrej, List.length_nil, Nat.add_zero] at hq
  refine ⟨hq, ?_, ?_⟩
  · intro hpend
    rw [hpend, List.length_eq_zero_iff] at hq
    rw [h.order, hq, List.append_nil]
  · intro sk hsk
    rw [hrej] at hsk
    cases hsk

/-- After a failed notification the queue has a socket too many. -/
theorem notifyFails_strands {e : SystemEvent} (h : HandoffOK s.threads s.phase) (hf : NotifyFails s e) :
    ∃ s', s.step e = some s' ∧ ¬ NothingStranded s' := by
  obtain ⟨rfl, i, sk, t, hphase, ht⟩ := hf
  refine ⟨s.dispatchEnd i sk false t, ?_, ?_⟩
  · simp only [System.step, hphase, ht, Option.bind_some]
    rfl
  · intro hno
    have hlt := (List.getElem?_eq_some_iff.1 ht).1
    have hmem : { t with rejected := t.rejected ++ [sk] } ∈ (s.dispatchEnd i sk false t).threads :=
      List.mem_set hlt _
    have hq := (hno rfl _ hmem).queued
    have hb := (h i t ht).queued
    rw [hphase, show (Phase.pushed i sk).toNotify i = 1 from if_pos rfl] at hb
    have hpend : WorkerThread.pending { t with rejected := t.rejected ++ [sk] } = t.pending := rfl
    rw [hpend] at hq
    simp only at hq
    omega

/-- **No socket is stranded in a run exactly if no notification fails in it.** For any
number of workers and any interleaving: outside of `dispatch_new_conn` every worker's
queue holds one socket for each `NEW_CONNECTION` that it has not processed, a worker
without such messages has created a connection for every socket dispatched to it, and a
failed `dispatch_new_conn` leaves nothing in the queue. -/
theorem hand_off_iff (kind : SockKind) (listenFd n timeout : ℕ) (ssl : Bool) (now : ℕ) (es : List SystemEvent) :
    Always System.step NothingStranded (System.init kind listenFd n timeout ssl now) es ↔
      Along System.step (fun s e => ¬ NotifyFails s e) (System.init kind listenFd n timeout ssl now) es := by
  have hinit := init_handoff_ok kind listenFd n timeout ssl now
  constructor
  · intro hall
    refine along_of_always (I := fun s => HandoffOK s.threads s.phase) step_handoff_ok ?_ hinit hall
    intro s e hs _ hnext hf
    obtain ⟨s', hst, hstranded⟩ := notifyFails_strands hs hf
    exact hstranded (hnext s' hst)
  · intro hno
    have hinv : Always System.step (fun s => HandoffOK s.threads s.phase ∧ NoneRejected s)
        (System.init kind listenFd n timeout ssl now) es := by
      refine always_along ?_ ⟨hinit, ?_⟩ hno
      · intro s e s' hs hf hst
        exact ⟨step_handoff_ok s e s' hs.1 hst, step_none_rejected hs.2 hf hst⟩
      · intro t ht
        rw [List.eq_of_mem_replicate ht]
        rfl
    refine hinv.mono ?_
    rintro s ⟨hs, hrej⟩ hphase t ht
    obtain ⟨i, hi⟩ := List.mem_iff_getElem?.1 ht
    have hb := hs i t hi
    rw [Phase.toNotify_of_not_pushed hphase] at hb
    exact handedOver_of_balanced hb (hrej t ht)

/-- One worker whose pipe is full: the socket stays in its queue without a message. -/
theorem failed_notify_strands :
    ∃ s, run System.step (System.init .tcp 3 1 60 false 0) [.accept 7, .push, .notify false] = some s ∧
      s.threads.map WorkerThread.mq = [[⟨1, .tcp, 7⟩]] ∧ s.threads.map WorkerThread.pipe = [[]] ∧
      ¬ NothingStranded s := by
  have hmap : (run System.step (System.init .tcp 3 1 60 false 0) [.accept 7, .push, .notify false]).map
      (fun s => (s.threads.map WorkerThread.mq, s.threads.map WorkerThread.pipe, s.threads.map WorkerThread.msg,
        s.phase.isPushed)) = some ([[⟨1, .tcp, 7⟩]], [[]], [none], false) := by decide +kernel
  obtain ⟨s, hrun, hv⟩ := Option.map_eq_some_iff.1 hmap
  simp only [Prod.mk.injEq] at hv
  obtain ⟨hmq, hpipe, hmsg, hphase⟩ := hv
  refine ⟨s, hrun, hmq, hpipe, fun hno => ?_⟩
  obtain ⟨t, hts, ht⟩ := List.map_eq_singleton_iff.1 hmq
  rw [hts] at hpipe hmsg
  simp only [List.map_cons, List.map_nil, List.cons.injEq, and_true] at hpipe hmsg
  have hq := (hno hphase t (by rw [hts]; exact List.mem_singleton_self t)).queued
  unfold WorkerThread.pending at hq
  rw [ht, hpipe, hmsg] at hq
  simp at hq

end Spigeon
