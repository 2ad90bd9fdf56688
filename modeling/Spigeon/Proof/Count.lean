import Spigeon.Proof.Owner

/-!
# The number of clients

`get_clients_count` adds up the sizes of the `_conns` tables. The number of connections is what
the tables hold, and `tally` relates it to the history: each connection that was created is in
the table of its worker or was removed.

* `live_eq_watched`: the entries of a table are the connections with watchers.
* `step_tally`: every event of a worker keeps the tally.
* `clients_count_iff`: the number that is returned is right exactly if no table has a hole.
* `full_tables_need`: that takes a single worker, whose table ends before the listening descriptor.
-/

namespace Spigeon

open CInt Lifetime Lts

/-! ## One worker -/

/-- The number of entries that are not `NULL`. -/
def Worker.live (w : Worker) : ℕ := (w.conns.filterMap fun p => p).length

def isDrop : Act ℕ → Bool
  | .drop _ => true
  | _ => false

/-- How often `remove_conn` was called. -/
def Worker.removed (w : Worker) : ℕ := w.acts.countP isDrop

/-- Each of the `n` connections made is watched or was removed. -/
def Tally (w : Worker) (n : ℕ) : Prop := w.watched.length + w.removed = n

/-- The number of calls of `create_connection`. -/
def WorkerEvent.creations : WorkerEvent → ℕ
  | .create _ => 1
  | _ => 0

variable {w w' : Worker} {id n : ℕ} {c c' : Conn}

theorem act_tally (h : Tally w n) {a : Act ℕ} (ha : isDrop a = false) : Tally (w.act a) n := by
  have hnone : [a].countP isDrop = 0 := by
    rw [List.countP_singleton, ha]
    rfl
  unfold Tally Worker.removed Worker.act at *
  rw [List.countP_append, hnone]
  exact h

theorem visit_tally (h : Tally w n) (id : ℕ) (c : Conn) (bytes : List UInt8) : Tally (w.visit id c bytes) n :=
  act_tally (a := .use id) h rfl

theorem removeConn_tally (h : Tally w n) (hid : id ∈ w.watched) (c : Conn) : Tally (w.removeConn id c) n := by
  unfold Tally Worker.removed Worker.removeConn at *
  have hpos : 0 < w.watched.length := List.length_pos_of_mem hid
  have hone : [Act.drop id].countP isDrop = 1 := rfl
  rw [List.countP_append, List.length_erase_of_mem hid, hone]
  omega

theorem closeConn_tally (h : Tally w n) (hid : id ∈ w.watched) (c : Conn) : Tally (w.closeConn id c) n := by
  have hact : Tally (w.act (.use id)) n := act_tally h rfl
  exact removeConn_tally hact hid c

/-- What a task does to the connection it finds. -/
theorem found_tally (h : Tally w n) (hid : id ∈ w.watched) {t : Task} {fd : ℕ} (hf : Found w t fd id c w') :
    Tally w' n := by
  cases hf with
  | visited hv =>
    cases hv with
    | stay hfd hlast => exact visit_tally h _ _ _
    | close hfd => exact closeConn_tally (visit_tally h _ _ _) hid _
    | @returns c' bytes ret hfd hlast => exact visit_tally h id c' bytes
  | slot hw => rw [hw]; exact closeConn_tally h hid c
  | handler ht ha hrem htcp =>
    cases hrem with
    | @tcpClose c₁ bytes hfd hc =>
      have hvisit := visit_tally h id (.tcp c₁) bytes
      exact closeConn_tally (w := (w.visit id (.tcp c₁) bytes).push _) hvisit hid _
    | @tcpRemove c₁ bytes hfd hc =>
      have hvisit := visit_tally h id (.tcp c₁) bytes
      exact removeConn_tally (w := (w.visit id (.tcp c₁) bytes).push _) hvisit hid _
    | udpRemove hfd => exact removeConn_tally (visit_tally h _ _ _) hid _
  | stalled ht hs hfd hlast hw => rw [hw]; exact visit_tally h _ _ _

/-- **Every event keeps the tally.** A connection that is removed was watched. -/
theorem step_tally {e : WorkerEvent} (hinv : WorkerInv w) (h : Tally w n) (hst : w.step e = some w') :
    Tally w' (n + e.creations) := by
  have hmove := worker_moves hst
  cases hmove with
  | @next t ts w' htodo hexec =>
    have hpop := pop_ok hinv.1 htodo
    rcases exec_cases hexec with hw | ⟨i, fd, rfl, hw⟩ | ⟨i, ret, c, rfl, hobj, hw⟩ | ⟨fd, i, c, hlook, hobj, hf⟩
    · rw [hw]; exact h
    · rw [hw]; exact act_tally (w := { w with todo := ts }) h rfl
    · have hid : i ∈ w.watched := returned_watched hinv htodo
      rw [hw]; exact closeConn_tally (w := { w with todo := ts }) h hid c
    · have hid := (hpop.slot fd i hlook).1
      exact found_tally (w := { w with todo := ts }) h hid hf
  | clock hidle => exact h
  | create hidle =>
    unfold Tally Worker.removed Worker.createConnection at *
    dsimp only [WorkerEvent.creations]
    rw [List.length_cons]
    omega
  | io hidle hts => exact h
  | @timer id c hidle hid hobj =>
    have hvisit := visit_tally h id c []
    unfold Worker.processTimeout
    dsimp only
    split
    · exact closeConn_tally (w := { w.visit id c [] with times := _ }) hvisit hid c
    · exact hvisit
  | reply hidle hid hobj => exact visit_tally h _ _ _
  | stop hidle hts => exact h

/-- **The entries of the table are the watched connections.** -/
theorem live_eq_watched (hinv : WorkerInv w) (htable : TableOK w) : w.live = w.watched.length := by
  have hmem : ∀ id, (id ∈ w.conns.filterMap fun p => p) ↔ ∃ fd, w.lookup fd = some id := by
    intro id
    simp only [List.mem_filterMap, exists_eq_right, lookup_eq_some]
    exact List.mem_iff_getElem?
  have hnodup : (w.conns.filterMap fun p => p).Nodup := by
    unfold List.Nodup
    rw [List.pairwise_filterMap, List.pairwise_iff_getElem]
    intro i j hi hj hlt a ha b hb hab
    -- an object has one descriptor, so it stands at one place
    obtain ⟨-, c, hobj, hfd⟩ := hinv.1.slot i a (lookup_eq_some.mpr (by rw [List.getElem?_eq_getElem hi, ha]))
    obtain ⟨-, c', hobj', hfd'⟩ := hinv.1.slot j b (lookup_eq_some.mpr (by rw [List.getElem?_eq_getElem hj, hb]))
    subst hab
    cases hobj.symm.trans hobj'
    omega
  have hperm : (w.conns.filterMap fun p => p).Perm w.watched := by
    refine (List.perm_ext_iff_of_nodup hnodup hinv.1.nodup).mpr ?_
    intro id
    rw [hmem]
    constructor
    · rintro ⟨fd, hlook⟩
      exact (hinv.1.slot fd id hlook).1
    · intro hid
      have hlt := hinv.1.created id hid
      exact ⟨_, htable.registered id hid w.objs[id] (List.getElem?_eq_getElem hlt)⟩
  exact hperm.length_eq

/-! ## All workers -/

/-- The tally of every worker. -/
def Tallied (ts : List WorkerThread) : Prop := ∀ t ∈ ts, Tally t.worker t.created.length

/-- Connections created so far. -/
def System.created (s : System) : ℕ := (s.threads.map fun t => t.created.length).sum

/-- Connections removed so far. -/
def System.removed (s : System) : ℕ := (s.threads.map fun t => t.worker.removed).sum

/-- The entries of all tables that are not `NULL`. -/
def System.live (s : System) : ℕ := (s.threads.map fun t => t.worker.live).sum

variable {s s' : System} {e : SystemEvent}

theorem Tallied.set {ts : List WorkerThread} {t : WorkerThread} (h : Tallied ts)
    (ht : Tally t.worker t.created.length) (i : ℕ) : Tallied (ts.set i t) := by
  intro u hu
  rcases List.mem_or_eq_of_mem_set hu with hold | rfl
  · exact h u hold
  · exact ht

/-- **Every step of the system keeps the tallies.** -/
theorem step_tallied (hok : SystemOK s) (h : Tallied s.threads) (hst : s.step e = some s') :
    Tallied s'.threads := by
  -- a step at one worker that leaves its connections as they are
  have hsame : ∀ {i : ℕ} {t t' : WorkerThread}, s.threads[i]? = some t → t'.worker = t.worker →
      t'.created = t.created → Tallied (s.threads.set i t') := by
    intro i t t' ht hworker hcreated
    refine h.set ?_ i
    rw [hworker, hcreated]
    exact h t (List.mem_of_getElem? ht)
  -- a step of the worker itself
  have hworks : ∀ {i : ℕ} {t : WorkerThread} {w : Worker} {ev : WorkerEvent}, s.threads[i]? = some t →
      t.worker.step ev = some w → Tally w (t.created.length + ev.creations) := by
    intro i t w ev ht hw
    have hmem := List.mem_of_getElem? ht
    exact step_tally (hok.workers t hmem).1 (h t hmem) hw
  cases step_moves hst with
  | accept hphase hfd => exact h
  | push hphase ht => exact hsame ht rfl rfl
  | notified hphase ht => exact hsame ht rfl rfl
  | unnotified hphase ht => exact hsame ht rfl rfl
  | winds hfree hfree' he => exact h
  | posts ht hp hm he => exact hsame ht rfl rfl
  | recv ht hmsg hpipe => exact hsame ht rfl rfl
  | create ht hmsg hmq hw =>
    refine h.set ?_ _
    rw [List.length_append, List.length_singleton]
    exact hworks ht hw
  | ignores ht hmsg hm => exact hsame ht rfl rfl
  | ends ht hmsg hw => exact h.set (hworks ht hw) _
  | @works i t ev w ht hown hmsg hw =>
    have hnone : ev.creations = 0 := by
      cases ev with
      | create sk => cases hown
      | _ => rfl
    have htally := hworks ht hw
    rw [hnone] at htally
    rw [shut_threads]
    exact h.set htally i

/-- The dispatcher's own descriptor is never one of a client. -/
theorem step_listen (h : s.step e = some s') :
    s'.listenFd = s.listenFd ∧ (s.listenFd ∉ s.fds → s.listenFd ∉ s'.fds) := by
  cases step_moves h with
  | @accept fd hphase hfd =>
    have hne : fd ≠ s.listenFd := by
      simp only [System.step] at h
      split at h
      · rename_i hg; exact hg.2.2
      · cases h
    exact ⟨rfl, fun hout hin => (List.mem_cons.1 hin).elim (fun heq => hne heq.symm) hout⟩
  | @works i t ev w ht hown hmsg hw =>
    cases hshut : t.worker.shutFd ev with
    | none => exact ⟨rfl, id⟩
    | some fd => exact ⟨rfl, fun hout hin => hout (List.mem_of_mem_erase hin)⟩
  | _ => exact ⟨rfl, id⟩

theorem init_tallied (kind : SockKind) (listenFd n timeout : ℕ) (ssl : Bool) (now : ℕ) :
    Tallied (System.init kind listenFd n timeout ssl now).threads := by
  intro t ht
  rw [List.eq_of_mem_replicate ht]
  rfl

theorem live_tally (hok : SystemOK s) (h : Tallied s.threads) : s.live + s.removed = s.created := by
  unfold System.live System.removed System.created
  rw [← List.sum_map_add]
  refine congrArg List.sum (List.map_congr_left ?_)
  intro t ht
  obtain ⟨hinv, htable⟩ := hok.workers t ht
  rw [live_eq_watched hinv htable]
  exact h t ht

/-! ## What is returned -/

theorem countClients_fst (workerId : ℕ → List UInt8) {ts : List WorkerThread}
    (hint : ∀ t ∈ ts, t.worker.conns.length < 2 ^ 31) (i : ℕ) (current : ℤ) (temp : List UInt8) :
    (countClients workerId i ts current temp).1 =
      current + ((ts.map fun t => t.worker.conns.length).sum : ℕ) := by
  induction ts generalizing i current temp with
  | nil => exact (add_zero current).symm
  | cons t ts ih =>
    have hone : t.worker.getClientsCount = t.worker.conns.length := toInt_nat (hint t List.mem_cons_self)
    rw [countClients, ih fun u hu => hint u (List.mem_cons_of_mem t hu), hone, List.map_cons, List.sum_cons]
    omega

theorem live_le (w : Worker) : w.live ≤ w.conns.length := List.length_filterMap_le _ _

theorem live_eq_length_iff (w : Worker) : w.live = w.conns.length ↔ ∀ p ∈ w.conns, p ≠ none := by
  unfold Worker.live
  rw [List.length_filterMap_eq_countP, List.countP_eq_length]
  refine forall₂_congr ?_
  intro p _
  exact Option.isSome_iff_ne_none

/-- A full table has a connection for each of its descriptors. -/
theorem one_le_places_of_full {t : WorkerThread} (hfull : ∀ p ∈ t.worker.conns, p ≠ none) {fd : ℕ}
    (hfd : fd < t.worker.conns.length) : 1 ≤ t.places fd := by
  obtain ⟨id, hid⟩ := Option.ne_none_iff_exists'.1 (hfull _ (List.getElem_mem hfd))
  have hlook : t.worker.lookup fd = some id := lookup_eq_some.2 (by rw [List.getElem?_eq_getElem hfd, hid])
  unfold WorkerThread.places Worker.holds
  rw [hlook, Option.isSome_some, if_pos rfl]
  omega

/-- **When the tables can be full.** Two full tables would both have a connection for descriptor 0, and
the listening descriptor has no connection. With two or more workers, or with a table that reaches
the listening descriptor, some entry is `NULL`. -/
theorem full_tables_need (kind : SockKind) (listenFd n timeout : ℕ) (ssl : Bool) (now : ℕ) {es : List SystemEvent}
    (hpol : ∀ e ∈ es, e.polite = true)
    (hrun : run System.step (System.init kind listenFd n timeout ssl now) es = some s)
    (hfull : ∀ t ∈ s.threads, ∀ p ∈ t.worker.conns, p ≠ none) :
    s.threads.length ≤ 1 ∧ ∀ t ∈ s.threads, t.worker.conns.length ≤ listenFd := by
  have hinv : SystemOK s ∧ s.listenFd = listenFd ∧ s.listenFd ∉ s.fds := by
    refine run_inv_along (I := fun s => SystemOK s ∧ s.listenFd = listenFd ∧ s.listenFd ∉ s.fds)
      (P := fun _ e => e.polite = true) ?_
      ⟨init_system_ok kind listenFd n timeout ssl now, rfl, List.not_mem_nil⟩ (along_of_forall hpol) hrun
    intro u e u' hu he hst
    obtain ⟨hsame, hout⟩ := step_listen hst
    rw [hsame]
    exact ⟨step_owner_ok u e u' hu.1 he hst, hu.2.1, hout hu.2.2⟩
  obtain ⟨hok, hlisten, hout⟩ := hinv
  constructor
  · -- each full table has a connection for descriptor 0, and there is at most one
    have hone : places s.phase s.threads 0 ≤ 1 := by
      rw [hok.owned]
      exact List.nodup_iff_count_le_one.1 hok.nodup 0
    have hsum : (s.threads.map fun _ => 1).sum ≤ (s.threads.map fun t => t.places 0).sum :=
      List.sum_le_sum fun t ht => one_le_places_of_full (hfull t ht) (hok.workers t ht).2.room
    rw [List.map_const', List.sum_replicate_nat, mul_one] at hsum
    unfold places at hone
    omega
  · intro t ht
    by_contra hlt
    have hplace := one_le_places_of_full (hfull t ht) (not_le.1 hlt)
    have hzero : places s.phase s.threads listenFd = 0 := by
      rw [hok.owned, ← hlisten]
      exact List.count_eq_zero.2 hout
    have hle := le_places (p := s.phase) ht listenFd
    omega

/-- **The client count is right exactly if no table has a hole.** For any number of workers and any
interleaving with handlers that leave their connections alone, as long as an `int` holds the
sizes of the tables. -/
theorem clients_count_iff (kind : SockKind) (listenFd n timeout : ℕ) (ssl : Bool) (now : ℕ)
    (workerId : ℕ → List UInt8) {es : List SystemEvent} (hpol : ∀ e ∈ es, e.polite = true)
    (hrun : run System.step (System.init kind listenFd n timeout ssl now) es = some s)
    (hint : ∀ t ∈ s.threads, t.worker.conns.length < 2 ^ 31) :
    (s.live : ℤ) = s.created - s.removed ∧
      ((s.getClientsCount workerId).1 = s.created - s.removed ↔
        ∀ t ∈ s.threads, ∀ p ∈ t.worker.conns, p ≠ none) := by
  have hinv : SystemOK s ∧ Tallied s.threads := by
    refine run_inv_along (I := fun s => SystemOK s ∧ Tallied s.threads) (P := fun _ e => e.polite = true) ?_
      ⟨init_system_ok kind listenFd n timeout ssl now, init_tallied kind listenFd n timeout ssl now⟩
      (along_of_forall hpol) hrun
    intro u e u' hu he hst
    exact ⟨step_owner_ok u e u' hu.1 he hst, step_tallied hu.1 hu.2 hst⟩
  have hlive : (s.live : ℤ) = s.created - s.removed := by
    have := live_tally hinv.1 hinv.2
    omega
  refine ⟨hlive, ?_⟩
  have hcount : (s.getClientsCount workerId).1 = ((s.threads.map fun t => t.worker.conns.length).sum : ℕ) := by
    unfold System.getClientsCount
    rw [countClients_fst workerId hint, zero_add]
  have hfull : s.live = (s.threads.map fun t => t.worker.conns.length).sum ↔
      ∀ t ∈ s.threads, t.worker.live = t.worker.conns.length :=
    List.sum_map_eq_iff fun t _ => live_le t.worker
  rw [← hlive, hcount, Nat.cast_inj, eq_comm, hfull]
  exact forall₂_congr fun t _ => live_eq_length_iff t.worker

theorem clients_count_reuse :
    ∃ s, run System.step (System.init .tcp 3 2 60 false 0) reuse = some s ∧ s.created = 1 ∧ s.removed = 1 ∧
      (s.live : ℤ) = 0 ∧ (s.getClientsCount fun _ => []).1 ≠ s.created - s.removed := by
  have hmap : (run System.step (System.init .tcp 3 2 60 false 0) reuse).map
      (fun s => (s.created, s.removed, s.threads.map fun t => t.worker.conns.length)) =
      some (1, 1, [1024, 1024]) := by
    decide +kernel
  obtain ⟨s, hrun, hv⟩ := Option.map_eq_some_iff.1 hmap
  simp only [Prod.mk.injEq] at hv
  obtain ⟨hcreated, hremoved, hsizes⟩ := hv
  have hint : ∀ t ∈ s.threads, t.worker.conns.length < 2 ^ 31 := by
    intro t ht
    have hsize : t.worker.conns.length ∈ [1024, 1024] := by
      rw [← hsizes]
      exact List.mem_map_of_mem ht
    simp only [List.mem_cons, List.not_mem_nil, or_false, or_self] at hsize
    omega
  obtain ⟨hlive, hiff⟩ := clients_count_iff .tcp 3 2 60 false 0 (fun _ => []) (by decide) hrun hint
  -- there are two workers, so the tables are not both full
  have hthreads : s.threads.length = 2 := by
    rw [← List.length_map, hsizes]
    rfl
  have hhole : ¬∀ t ∈ s.threads, ∀ p ∈ t.worker.conns, p ≠ none := by
    intro hfull
    have hone := (full_tables_need .tcp 3 2 60 false 0 (by decide) hrun hfull).1
    omega
  rw [hcreated, hremoved] at hlive
  exact ⟨s, hrun, hcreated, hremoved, hlive, mt hiff.1 hhole⟩

/-- One worker and no client: the table has 1024 entries, all of them `NULL`. -/
theorem no_clients_counted :
    run System.step (System.init .tcp 3 1 60 false 0) [] = some (System.init .tcp 3 1 60 false 0) ∧
      (System.init .tcp 3 1 60 false 0).created = 0 ∧ (System.init .tcp 3 1 60 false 0).removed = 0 ∧
      (System.init .tcp 3 1 60 false 0).live = 0 ∧
      ((System.init .tcp 3 1 60 false 0).getClientsCount fun _ => []).1 = 1024 := by
  refine ⟨rfl, rfl, rfl, ?_, ?_⟩
  · decide +kernel
  · decide +kernel

end Spigeon
