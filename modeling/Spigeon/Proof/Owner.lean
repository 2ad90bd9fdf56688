import Mathlib.Algebra.Order.BigOperators.Group.List
import Spigeon.Proof.Table

/-!
# An accepted descriptor has one owner

Between `accept` and `close` a descriptor is with the dispatcher, in the queue of a
worker, in the table of a worker, or with the worker that has removed it and is about to
close it. `places` counts these over all threads.

* `OwnerOK`: the invariant; `places` is 1 for the open descriptors and 0 for the others.
* `step_owner_ok`: every step keeps it, if handlers leave their connections alone.
* `one_owner`: the consequences along a whole run, with reuse of closed descriptors.
-/

namespace Spigeon

open Lts

/-! ## Places -/

def Phase.holds (p : Phase) (fd : ℕ) : ℕ :=
  match p with
  | .accepted sk => if sk.fd = fd then 1 else 0
  | _ => 0

/-- The places of a descriptor at one worker: its queue, its table, its closes to come. -/
def WorkerThread.places (t : WorkerThread) (fd : ℕ) : ℕ := (t.mq.map Socket.fd).count fd + t.worker.holds fd

/-- The places of a descriptor in the whole server. -/
def places (p : Phase) (ts : List WorkerThread) (fd : ℕ) : ℕ := p.holds fd + (ts.map fun t => t.places fd).sum

def SystemEvent.polite : SystemEvent → Bool
  | .worker _ e => e.polite
  | _ => true

/-- What it means for descriptors to have one owner. -/
structure OneOwner (s : System) : Prop where
  /-- an open descriptor is in exactly one place, any other in none -/
  placed : ∀ fd, places s.phase s.threads fd = if fd ∈ s.fds then 1 else 0
  /-- `_conns[fd]` is a connection for `fd` -/
  slot : ∀ t ∈ s.threads, ∀ fd id, t.worker.lookup fd = some id → ∃ c, t.worker.objs[id]? = some c ∧ c.fd = fd
  /-- `create_connection` will find the entry empty -/
  vacant : ∀ t ∈ s.threads, ∀ sk ∈ t.mq, t.worker.lookup sk.fd = none
  /-- each accept is followed by at most one close -/
  closed : ∀ fd, s.accepts.count fd = s.closes.count fd + if fd ∈ s.fds then 1 else 0

variable {s s' : System} {p p' : Phase} {ts : List WorkerThread} {t t' : WorkerThread}
    {fds accepts closes : List ℕ}

theorem Phase.holds_of_free (h : p.free) (fd : ℕ) : p.holds fd = 0 := by
  cases p with
  | accepted sk => cases h.2
  | _ => rfl

/-- One worker's places are among those of the server. -/
theorem le_places (ht : t ∈ ts) (fd : ℕ) : t.places fd ≤ places p ts fd := by
  have hmem : t.places fd ∈ ts.map fun u => u.places fd := List.mem_map.2 ⟨t, ht, rfl⟩
  exact le_trans (List.single_le_sum (fun _ _ => Nat.zero_le _) _ hmem) (Nat.le_add_left _ _)

theorem one_le_mq_count {sk : Socket} (h : sk ∈ t.mq) : 1 ≤ (t.mq.map Socket.fd).count sk.fd :=
  List.count_pos_iff.2 (List.mem_map.2 ⟨sk, h, rfl⟩)

/-! ## The invariant -/

structure OwnerOK (ts : List WorkerThread) (p : Phase) (fds accepts closes : List ℕ) : Prop where
  workers : ∀ t ∈ ts, WorkerInv t.worker ∧ TableOK t.worker
  owned : ∀ fd, places p ts fd = fds.count fd
  nodup : fds.Nodup
  closed : ∀ fd, accepts.count fd = closes.count fd + fds.count fd

/-- A queued descriptor is not in the table of the same worker. -/
theorem OwnerOK.vacant (h : OwnerOK ts p fds accepts closes) (ht : t ∈ ts) {sk : Socket} (hsk : sk ∈ t.mq) :
    t.worker.lookup sk.fd = none := by
  have hone : t.places sk.fd ≤ 1 := by
    have hle := le_places (p := p) ht sk.fd
    rw [h.owned] at hle
    exact le_trans hle (List.nodup_iff_count_le_one.1 h.nodup sk.fd)
  have hmq := one_le_mq_count hsk
  cases hlook : t.worker.lookup sk.fd with
  | none => rfl
  | some id =>
    -- the queue and the table would be two places
    unfold WorkerThread.places Worker.holds at hone
    rw [hlook, Option.isSome_some, if_pos rfl] at hone
    omega

/-- The places after one worker has changed, and the dispatcher with it. -/
theorem places_set (p p' : Phase) {i : ℕ} (ht : ts[i]? = some t) (t' : WorkerThread) (fd : ℕ) :
    places p' (ts.set i t') fd + (p.holds fd + t.places fd) = places p ts fd + (p'.holds fd + t'.places fd) := by
  have hsum := List.sum_map_set (fun u : WorkerThread => u.places fd) (b := t') ht
  unfold places
  omega

theorem OwnerOK.workers_set {i : ℕ} (h : OwnerOK ts p fds accepts closes)
    (hw : WorkerInv t'.worker ∧ TableOK t'.worker) :
    ∀ u ∈ ts.set i t', WorkerInv u.worker ∧ TableOK u.worker := by
  intro u hu
  rcases List.mem_or_eq_of_mem_set hu with hu | rfl
  · exact h.workers u hu
  · exact hw

/-- A step of one worker, or of the dispatcher with it, that moves descriptors around. -/
theorem OwnerOK.move {i : ℕ} (h : OwnerOK ts p fds accepts closes) (ht : ts[i]? = some t)
    (hw : WorkerInv t'.worker ∧ TableOK t'.worker)
    (hplaces : ∀ fd, p'.holds fd + t'.places fd = p.holds fd + t.places fd) :
    OwnerOK (ts.set i t') p' fds accepts closes := by
  refine ⟨h.workers_set hw, ?_, h.nodup, h.closed⟩
  intro fd
  have hown := h.owned fd
  have hset := places_set p p' ht t' fd
  have hfd := hplaces fd
  omega

/-- A step of one worker that closes a descriptor. -/
theorem OwnerOK.shut {i f : ℕ} (h : OwnerOK ts p fds accepts closes) (ht : ts[i]? = some t)
    (hw : WorkerInv t'.worker ∧ TableOK t'.worker)
    (hplaces : ∀ fd, t'.places fd + (if f = fd then 1 else 0) = t.places fd) :
    OwnerOK (ts.set i t') p (fds.erase f) accepts (closes ++ [f]) := by
  have hcount : ∀ fd, (fds.erase f).count fd + (if f = fd then 1 else 0) = fds.count fd := by
    intro fd
    have hle : t.places fd ≤ fds.count fd := by
      rw [← h.owned fd]; exact le_places (List.mem_of_getElem? ht) fd
    have hfd := hplaces fd
    rw [List.count_erase]
    simp only [beq_iff_eq]
    omega
  refine ⟨h.workers_set hw, ?_, h.nodup.erase f, ?_⟩
  · intro fd
    have hown := h.owned fd
    have hset := places_set p p ht t' fd
    have hfd := hplaces fd
    have hc := hcount fd
    omega
  · intro fd
    have hcl := h.closed fd
    have hc := hcount fd
    rw [List.count_append, List.count_singleton]
    simp only [beq_iff_eq]
    omega

/-! ## Steps -/

/-- The dispatcher gets a descriptor that was not open. -/
theorem OwnerOK.accept (h : OwnerOK ts .idle fds accepts closes) (sk : Socket) (hfd : sk.fd ∉ fds) :
    OwnerOK ts (.accepted sk) (sk.fd :: fds) (accepts ++ [sk.fd]) closes := by
  refine ⟨h.workers, ?_, List.nodup_cons.2 ⟨hfd, h.nodup⟩, ?_⟩
  · intro fd
    have hown := h.owned fd
    unfold places at hown ⊢
    rw [List.count_cons]
    simp only [Phase.holds, beq_iff_eq] at hown ⊢
    omega
  · intro fd
    rw [List.count_append, List.count_singleton, List.count_cons, h.closed fd]
    omega

/-- The dispatcher puts the descriptor into the queue of a worker. -/
theorem OwnerOK.push {sk : Socket} {i j : ℕ} (h : OwnerOK ts (.accepted sk) fds accepts closes)
    (ht : ts[i]? = some t) (hworker : t'.worker = t.worker) (hqueue : t'.mq = t.mq ++ [sk]) :
    OwnerOK (ts.set i t') (.pushed j sk) fds accepts closes := by
  refine h.move ht ?_ ?_
  · rw [hworker]; exact h.workers t (List.mem_of_getElem? ht)
  · intro fd
    unfold WorkerThread.places
    rw [hworker, hqueue, List.map_append, List.count_append, List.map_singleton, List.count_singleton]
    simp only [Phase.holds, beq_iff_eq]
    omega

/-- A worker stops: its connections are still to be closed. -/
theorem stop_owner_ok {i : ℕ} {w : Worker} (h : OwnerOK ts p fds accepts closes) (ht : ts[i]? = some t)
    (hw : t.worker.step .stop = some w) (hworker : t'.worker = w) (hqueue : t'.mq = t.mq) :
    OwnerOK (ts.set i t') p fds accepts closes := by
  obtain ⟨hinv, htable⟩ := h.workers t (List.mem_of_getElem? ht)
  have hstop := stop_keeps htable hw
  have hinv' := step_worker_ok hinv htable.not_removes hw
  refine h.move ht ?_ ?_
  · rw [hworker]; exact ⟨hinv', hstop.table⟩
  · intro fd
    unfold WorkerThread.places
    rw [hworker, hqueue, hstop.holds fd]

/-- A worker creates the connection of the first socket in its queue. -/
theorem create_owner_ok {i : ℕ} {sk : Socket} {mq : List Socket} {w : Worker}
    (h : OwnerOK ts p fds accepts closes) (ht : ts[i]? = some t) (hmq : t.mq = sk :: mq)
    (hw : t.worker.step (.create sk) = some w) (hworker : t'.worker = w) (hqueue : t'.mq = mq) :
    OwnerOK (ts.set i t') p fds accepts closes := by
  have hmem := List.mem_of_getElem? ht
  obtain ⟨hinv, htable⟩ := h.workers t hmem
  have hfree := h.vacant hmem (show sk ∈ t.mq by rw [hmq]; exact List.mem_cons_self)
  have hinv' := step_worker_ok hinv htable.not_removes hw
  have hmove := worker_moves hw
  cases hmove with
  | create hidle =>
    refine h.move ht ?_ ?_
    · rw [hworker]; exact ⟨hinv', createConnection_table hinv.1 htable hfree⟩
    · intro fd
      unfold WorkerThread.places
      rw [hworker, hqueue, hmq, createConnection_holds htable hfree, List.map_cons, List.count_cons]
      simp only [beq_iff_eq]
      omega

/-- A step of a worker's own loop. -/
theorem works_owner_ok {i : ℕ} {e : WorkerEvent} {w : Worker} (h : OwnerOK ts p fds accepts closes)
    (ht : ts[i]? = some t) (hown : e.own = true) (hpol : e.polite = true) (hw : t.worker.step e = some w) :
    match t.worker.shutFd e with
    | none => OwnerOK (ts.set i { t with worker := w }) p fds accepts closes
    | some f => OwnerOK (ts.set i { t with worker := w }) p (fds.erase f) accepts (closes ++ [f]) := by
  obtain ⟨hinv, htable⟩ := h.workers t (List.mem_of_getElem? ht)
  have hinv' := step_worker_ok hinv htable.not_removes hw
  obtain ⟨htable', hholds⟩ := own_step_holds hinv htable hpol hown hw
  have hplaces : ∀ fd, WorkerThread.places { t with worker := w } fd +
      (if t.worker.shutFd e = some fd then 1 else 0) = t.places fd := by
    intro fd
    have hfd := hholds fd
    simp only [WorkerThread.places]
    omega
  cases hshut : t.worker.shutFd e with
  | none =>
    refine h.move ht ⟨hinv', htable'⟩ fun fd => ?_
    have hfd := hplaces fd
    rw [hshut] at hfd
    simp only [reduceCtorEq, if_false] at hfd
    omega
  | some f =>
    refine h.shut ht ⟨hinv', htable'⟩ fun fd => ?_
    have hfd := hplaces fd
    rw [hshut] at hfd
    simp only [Option.some.injEq] at hfd
    exact hfd

/-- The invariant of a state of the system. -/
def SystemOK (s : System) : Prop := OwnerOK s.threads s.phase s.fds s.accepts s.closes

/-- **Every step keeps the descriptors where they belong**, if the handlers it calls leave
their connections alone. -/
theorem step_owner_ok (s : System) (e : SystemEvent) (s' : System) (h : SystemOK s) (hpol : e.polite = true)
    (hst : s.step e = some s') : SystemOK s' := by
  have hmove := step_moves hst
  -- a step at one worker that touches neither its queue nor its connections
  have hsame : ∀ {i : ℕ} {t t' : WorkerThread} {p : Phase}, s.threads[i]? = some t →
      (∀ fd, p.holds fd = s.phase.holds fd) → t'.worker = t.worker → t'.mq = t.mq →
      OwnerOK (s.threads.set i t') p s.fds s.accepts s.closes := by
    intro i t t' p ht hp hworker hqueue
    refine OwnerOK.move h ht ?_ ?_
    · rw [hworker]; exact h.workers t (List.mem_of_getElem? ht)
    · intro fd
      unfold WorkerThread.places
      rw [hp, hworker, hqueue]
  cases hmove with
  | accept hphase hfd =>
    unfold SystemOK at h
    rw [hphase] at h
    exact h.accept ⟨s.made, s.serverType, _⟩ hfd
  | push hphase ht =>
    unfold SystemOK at h
    rw [hphase] at h
    exact h.push ht rfl rfl
  | notified hphase ht => exact hsame ht (fun fd => by rw [hphase]; rfl) rfl rfl
  | unnotified hphase ht => exact hsame ht (fun fd => by rw [hphase]; rfl) rfl rfl
  | winds hfree hfree' he =>
    refine ⟨h.workers, fun fd => ?_, h.nodup, h.closed⟩
    have hown := h.owned fd
    unfold places at hown ⊢
    rw [Phase.holds_of_free hfree] at hown
    rw [Phase.holds_of_free hfree']
    exact hown
  | posts ht hp hm he =>
    refine hsame ht (fun fd => ?_) rfl rfl
    rcases hp with hp | ⟨hfree, hfree'⟩
    · rw [hp]
    · rw [Phase.holds_of_free hfree, Phase.holds_of_free hfree']
  | recv ht hmsg hpipe => exact hsame ht (fun _ => rfl) rfl rfl
  | create ht hmsg hmq hw => exact create_owner_ok h ht hmq hw rfl rfl
  | ignores ht hmsg hm => exact hsame ht (fun _ => rfl) rfl rfl
  | ends ht hmsg hw => exact stop_owner_ok h ht hw rfl rfl
  | works ht hown hmsg hw =>
    rename_i i t e w
    have hstep := works_owner_ok h ht hown hpol hw
    cases hshut : t.worker.shutFd e with
    | none => rw [hshut] at hstep; exact hstep
    | some f => rw [hshut] at hstep; exact hstep

/-! ## Runs -/

theorem init_system_ok (kind : SockKind) (listenFd n timeout : ℕ) (ssl : Bool) (now : ℕ) :
    SystemOK (System.init kind listenFd n timeout ssl now) := by
  refine ⟨?_, ?_, List.nodup_nil, fun _ => rfl⟩
  · intro t ht
    rw [List.eq_of_mem_replicate ht]
    exact ⟨init_worker_ok timeout ssl now, init_table_ok timeout ssl now⟩
  · intro fd
    have hzero : (WorkerThread.init timeout ssl now).places fd = 0 := by
      have hlook : (Worker.init timeout ssl now).lookup fd = none := by
        cases hl : (Worker.init timeout ssl now).lookup fd with
        | none => rfl
        | some id =>
          obtain ⟨hmem, -⟩ := (init_worker_ok timeout ssl now).1.slot fd id hl
          cases hmem
      simp only [WorkerThread.places, WorkerThread.init, Worker.holds, hlook]
      rfl
    unfold places
    simp [System.init, hzero, Phase.holds]

theorem oneOwner_of_ok (h : SystemOK s) : OneOwner s := by
  have hcount : ∀ fd, s.fds.count fd = if fd ∈ s.fds then 1 else 0 := fun fd => h.nodup.count
  refine ⟨?_, ?_, ?_, ?_⟩
  · intro fd; rw [← hcount]; exact h.owned fd
  · intro t ht fd id hlook; exact ((h.workers t ht).1.1.slot fd id hlook).2
  · intro t ht sk hsk; exact h.vacant ht hsk
  · intro fd; rw [← hcount]; exact h.closed fd

/-- **An accepted descriptor has one owner.** For any number of workers, any interleaving
of the threads and any reuse of closed descriptors by the kernel, with handlers that
leave their connections alone. -/
theorem one_owner (kind : SockKind) (listenFd n timeout : ℕ) (ssl : Bool) (now : ℕ) {es : List SystemEvent}
    (hpol : ∀ e ∈ es, e.polite = true) :
    Always System.step OneOwner (System.init kind listenFd n timeout ssl now) es := by
  have hall : Always System.step SystemOK (System.init kind listenFd n timeout ssl now) es :=
    always_along step_owner_ok (init_system_ok kind listenFd n timeout ssl now) (along_of_forall hpol)
  exact hall.mono fun _ h => oneOwner_of_ok h

/-- A client closes its connection; the kernel gives its descriptor to the next one while
the worker is still in the callback. -/
def reuse : List SystemEvent :=
  [.accept 7, .push, .notify true, .recv 0, .process 0,
    .worker 0 (.io 0 true true ⟨fun _ => 0, .eof, .again, .leave [] 0⟩ []), .worker 0 .next, .worker 0 .next,
    .accept 7, .push, .worker 0 .next]

theorem one_owner_reuse :
    ∃ s, run System.step (System.init .tcp 3 2 60 false 0) reuse = some s ∧
      s.accepts = [7, 7] ∧ s.closes = [7] ∧ s.fds = [7] ∧ OneOwner s := by
  have hmap : (run System.step (System.init .tcp 3 2 60 false 0) reuse).map
      (fun s => (s.accepts, s.closes, s.fds)) = some ([7, 7], [7], [7]) := by decide +kernel
  obtain ⟨s, hrun, hv⟩ := Option.map_eq_some_iff.1 hmap
  simp only [Prod.mk.injEq] at hv
  obtain ⟨hacc, hcl, hfds⟩ := hv
  exact ⟨s, hrun, hacc, hcl, hfds, (one_owner .tcp 3 2 60 false 0 (by decide)).last hrun⟩

end Spigeon
