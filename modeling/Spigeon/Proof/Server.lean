import Mathlib.Data.List.Nodup
import Spigeon.Lib.Lts
import Spigeon.Spec.Server

/-!
# Worker objects are deleted after their threads

A worker on the dispatcher's list has a thread, which is joined by `join_workers` only. The
destructor of the dispatcher does not look at the threads, and `spawn_worker` deletes a
worker whose thread it has just started when it cannot bind it to a cpu.

* `ServerMoves`, `server_moves`: what one event can do.
* `ServerOK`, `step_server_ok`: what is known of the threads in every phase.
* `step_deletes`: what an event deletes.
* `workers_deleted_joined`: every object deleted has no thread any more exactly if no binding
  fails and the server is destroyed only after a complete `join_workers`.
-/

namespace Spigeon

open Lts

/-- The thread was created and `join_thread` has not returned for it. -/
def ThreadState.Unjoined (t : ThreadState) : Prop := t = .running ∨ t = .finished

theorem ThreadState.Unjoined.born {t : ThreadState} (h : t.Unjoined) : t ≠ .unborn := by
  rcases h with rfl | rfl <;> decide

theorem ThreadState.Unjoined.not_joined {t : ThreadState} (h : t.Unjoined) : t ≠ .joined := by
  rcases h with rfl | rfl <;> decide

variable {s s' : Server} {e : ServerEvent} {d : Dispatcher} {th th' : ℕ → ThreadState} {ids : List ℕ}
  {watched stopped : Bool}

/-! ## The threads of the workers on the list -/

/-- The workers on the list, with the dispatcher's watcher and the end of `join_workers`. -/
structure ThreadsOK (th : ℕ → ThreadState) (ids : List ℕ) (watched stopped : Bool) : Prop where
  nodup : ids.Nodup
  born : ∀ id ∈ ids, th id ≠ .unborn
  /-- `stop` deletes the watcher before it joins -/
  unjoined : watched = true → stopped = false ∧ ∀ id ∈ ids, (th id).Unjoined
  joined : stopped = true → ∀ id ∈ ids, th id = .joined
  left : stopped = false → ids ≠ [] → ∃ id ∈ ids, (th id).Unjoined

/-- From one moment to another no thread of `ids` changed, except that some returned. -/
def Progress (th th' : ℕ → ThreadState) (ids : List ℕ) : Prop :=
  ∀ id ∈ ids, th' id = th id ∨ th id = .running ∧ th' id = .finished

theorem Progress.unjoined (hth : Progress th th' ids) {id : ℕ} (hid : id ∈ ids) (hu : (th id).Unjoined) :
    (th' id).Unjoined := by
  rcases hth id hid with heq | ⟨-, hfin⟩
  · rw [heq]; exact hu
  · exact Or.inr hfin

theorem Progress.joined (hth : Progress th th' ids) {id : ℕ} (hid : id ∈ ids) (hj : th id = .joined) :
    th' id = .joined := by
  rcases hth id hid with heq | ⟨hrun, -⟩
  · rw [heq]; exact hj
  · rw [hj] at hrun; cases hrun

theorem ThreadsOK.progress (h : ThreadsOK th ids watched stopped) (hth : Progress th th' ids) :
    ThreadsOK th' ids watched stopped := by
  refine ⟨h.nodup, ?_, ?_, ?_, ?_⟩
  · intro id hid
    rcases hth id hid with heq | ⟨-, hfin⟩
    · rw [heq]; exact h.born id hid
    · rw [hfin]; decide
  · intro hw
    exact ⟨(h.unjoined hw).1, fun id hid => hth.unjoined hid ((h.unjoined hw).2 id hid)⟩
  · intro hs id hid
    exact hth.joined hid (h.joined hs id hid)
  · intro hs hne
    obtain ⟨id, hid, hu⟩ := h.left hs hne
    exact ⟨id, hid, hth.unjoined hid hu⟩

theorem threadsOK_nil : ThreadsOK th [] watched false := by
  have hno : ∀ {P : ℕ → Prop}, ∀ id ∈ ([] : List ℕ), P id := fun id hid => by cases hid
  exact ⟨List.nodup_nil, hno, fun _ => ⟨rfl, hno⟩, fun _ => hno, fun _ hne => absurd rfl hne⟩

/-- `_workers.push_back`. -/
theorem ThreadsOK.push (h : ThreadsOK th ids true stopped) {id : ℕ} (hid : id ∉ ids) (hu : (th id).Unjoined) :
    ThreadsOK th (ids ++ [id]) true stopped := by
  obtain ⟨hs, hall⟩ := h.unjoined rfl
  have hall' : ∀ i ∈ ids ++ [id], (th i).Unjoined := by
    intro i hi
    rcases List.mem_append.1 hi with hi | hi
    · exact hall i hi
    · rw [List.mem_singleton.1 hi]; exact hu
  refine ⟨?_, fun i hi => (hall' i hi).born, fun _ => ⟨hs, hall'⟩, ?_, ?_⟩
  · have hdisj : ids.Disjoint [id] := List.disjoint_singleton.2 hid
    exact List.Nodup.append h.nodup (List.nodup_singleton id) hdisj
  · intro hstop
    rw [hs] at hstop; cases hstop
  · intro _ _
    exact ⟨id, List.mem_append_right _ (List.mem_singleton_self id), hu⟩

/-- In the middle of `join_workers`: the workers before `rest` are joined. -/
structure Joining (th : ℕ → ThreadState) (ids rest : List ℕ) : Prop where
  nodup : ids.Nodup
  split : ∃ done, ids = done ++ rest ∧ ∀ id ∈ done, th id = .joined
  unjoined : ∀ id ∈ rest, (th id).Unjoined

variable {rest : List ℕ}

theorem Joining.progress (h : Joining th ids rest) (hth : Progress th th' ids) : Joining th' ids rest := by
  obtain ⟨done, hsplit, hdone⟩ := h.split
  refine ⟨h.nodup, ⟨done, hsplit, ?_⟩, ?_⟩
  · intro i hi
    exact hth.joined (hsplit ▸ List.mem_append_left rest hi) (hdone i hi)
  · intro i hi
    exact hth.unjoined (hsplit ▸ List.mem_append_right done hi) (h.unjoined i hi)

theorem Joining.threads (h : Joining th ids rest) (hne : rest ≠ []) : ThreadsOK th ids false false := by
  obtain ⟨done, hsplit, hdone⟩ := h.split
  obtain ⟨id, hid⟩ := List.exists_mem_of_ne_nil rest hne
  refine ⟨h.nodup, ?_, fun hw => (by cases hw), fun hs => (by cases hs), ?_⟩
  · intro i hi
    rcases List.mem_append.1 (hsplit ▸ hi) with hi | hi
    · rw [hdone i hi]; decide
    · exact (h.unjoined i hi).born
  · intro _ _
    exact ⟨id, hsplit ▸ List.mem_append_right done hid, h.unjoined id hid⟩

/-- The end of `join_workers`. -/
theorem Joining.stop (h : Joining th ids []) : ThreadsOK th ids false true := by
  obtain ⟨done, hsplit, hdone⟩ := h.split
  have hall : ∀ id ∈ ids, th id = .joined := by
    intro id hid
    rw [hsplit, List.append_nil] at hid
    exact hdone id hid
  refine ⟨h.nodup, ?_, fun hw => (by cases hw), fun _ => hall, fun hs => (by cases hs)⟩
  intro id hid
  rw [hall id hid]; decide

/-- `join_thread` returned for the first worker that is left. -/
theorem Joining.join {id : ℕ} (h : Joining th ids (id :: rest)) (hid : th' id = .joined)
    (hth : ∀ i, i ≠ id → th' i = th i) : Joining th' ids rest := by
  obtain ⟨done, hsplit, hdone⟩ := h.split
  have hnodup : (done ++ id :: rest).Nodup := hsplit ▸ h.nodup
  have hrest : id ∉ rest := (List.nodup_cons.1 (List.nodup_append.1 hnodup).2.1).1
  refine ⟨h.nodup, ⟨done ++ [id], ?_, ?_⟩, ?_⟩
  · rw [hsplit, List.append_assoc, List.singleton_append]
  · intro i hi
    by_cases hne : i = id
    · rw [hne]; exact hid
    · rw [hth i hne]
      rcases List.mem_append.1 hi with hi | hi
      · exact hdone i hi
      · exact absurd (List.mem_singleton.1 hi) hne
  · intro i hi
    rw [hth i fun he => hrest (he ▸ hi)]
    exact h.unjoined i (List.mem_cons_of_mem id hi)

/-! ## The threads after an operation -/

theorem threadOf_setThread {id : ℕ} (hid : id < s.objs.length) (t : ThreadState) (i : ℕ) :
    (s.setThread id t).threadOf i = if i = id then t else s.threadOf i := by
  unfold Server.threadOf Server.setThread
  dsimp only
  rw [List.getElem?_modify]
  by_cases hi : i = id
  · rw [if_pos hi, hi, List.getElem?_eq_getElem hid]
    simp
  · rw [if_neg hi]
    cases s.objs[i]? <;> simp [Ne.symm hi]

/-- A change to the objects that leaves their threads. -/
theorem threadOf_modify {f : WorkerObj → WorkerObj} (hf : ∀ w, (f w).thread = w.thread) (id i : ℕ) :
    ({ s with objs := s.objs.modify id f } : Server).threadOf i = s.threadOf i := by
  unfold Server.threadOf
  dsimp only
  rw [List.getElem?_modify]
  cases s.objs[i]? with
  | none => rfl
  | some w => by_cases hi : id = i <;> simp [hi, hf]

theorem lt_of_threadOf {id : ℕ} (h : s.threadOf id ≠ .unborn) : id < s.objs.length := by
  by_contra hge
  refine h ?_
  unfold Server.threadOf
  rw [List.getElem?_eq_none (by omega)]
  rfl

theorem threadOf_concat (w : WorkerObj) (hw : w.thread = .unborn) (i : ℕ) :
    ({ s with objs := s.objs ++ [w] } : Server).threadOf i = s.threadOf i := by
  unfold Server.threadOf
  dsimp only
  rcases Nat.lt_trichotomy i s.objs.length with hlt | rfl | hgt
  · rw [List.getElem?_append_left hlt]
  · rw [List.getElem?_concat_length, List.getElem?_eq_none le_rfl]; exact hw
  · rw [List.getElem?_eq_none (by rw [List.length_append, List.length_singleton]; omega),
      List.getElem?_eq_none (by omega)]

theorem foldl_delete (ids : List ℕ) : ∀ s : Server,
    ids.foldl Server.delete s = { s with deletes := s.deletes ++ ids.map fun id => (id, s.threadOf id) } := by
  induction ids with
  | nil => intro s; rw [List.map_nil, List.append_nil]; rfl
  | cons id ids ih =>
    intro s
    rw [List.foldl_cons, ih, List.map_cons]
    simp only [Server.delete, List.append_assoc, List.singleton_append]
    rfl

/-! ## Events -/

/-- The events at which objects may be deleted. -/
def ServerEvent.deletes : ServerEvent → Bool
  | .bind _ => true
  | .destroy => true
  | _ => false

/-- What one event does to a server. -/
inductive ServerMoves (s : Server) : ServerEvent → Server → Prop where
  | init (hp : s.phase = .idle) :
      ServerMoves s .init { s with phase := .pipe, dispatcher := some Dispatcher.new }
  | fails {e : ServerEvent} (he : e.deletes = false) : ServerMoves s e (s.returns SERVER_ERROR)
  | pipe {d : Dispatcher} (hp : s.phase = .pipe) (hd : s.dispatcher = some d) :
      ServerMoves s (.pipe true) { s with phase := .server, dispatcher := some { d with pipeWatcher := true } }
  | server {d : Dispatcher} (hp : s.phase = .server) (hd : s.dispatcher = some d) :
      ServerMoves s (.server true) { s with phase := .spawn 0, dispatcher := some { d with ioWatcher := true } }
  | spawn {d : Dispatcher} {i : ℕ} {piped : Bool} (hp : s.phase = .spawn i) (hd : s.dispatcher = some d) :
      ServerMoves s (.spawn piped) (s.spawnWorker d i piped)
  | thread {i id : ℕ} (hp : s.phase = .thread i id) :
      ServerMoves s (.thread true) { s.setThread id .running with phase := .bind i id }
  | bind {d : Dispatcher} {i id : ℕ} {w : WorkerObj} {affinity : Bool} (hp : s.phase = .bind i id)
      (hd : s.dispatcher = some d) (hw : s.objs[id]? = some w) :
      ServerMoves s (.bind affinity) (s.bindWorker d i id w affinity)
  | run (hp : s.phase = .idle) : ServerMoves s .run { s with phase := .loop }
  | stop {d : Dispatcher} (hd : s.dispatcher = some d) :
      ServerMoves s (.stop true) { s with dispatcher := some { d with quits := d.quits + 1 } }
  | nothing {e : ServerEvent} (he : e.deletes = false) : ServerMoves s e s
  | quit {d : Dispatcher} (hp : s.phase = .loop) (hd : s.dispatcher = some d) (hw : d.pipeWatcher = true) :
      ServerMoves s .quit (Server.joinWorkers
        { s with dispatcher := some { d with pipeWatcher := false, ioWatcher := false, quits := d.quits - 1 } }
        { d with pipeWatcher := false, ioWatcher := false, quits := d.quits - 1 } d.workers)
  | notify {id : ℕ} {rest : List ℕ} {ok : Bool} (hp : s.phase = .notify (id :: rest)) :
      ServerMoves s (.notify ok)
        { s with
          phase := .join (id :: rest)
          objs := s.objs.modify id fun w => { w with quit := w.quit || (ok && w.piped) } }
  | join {d : Dispatcher} {id : ℕ} {rest : List ℕ} (hp : s.phase = .join (id :: rest))
      (hd : s.dispatcher = some d) (hfin : s.threadOf id = .finished) :
      ServerMoves s (.join true) ((s.setThread id .joined).joinWorkers d rest)
  | joinFails {id : ℕ} {rest : List ℕ} (hp : s.phase = .join (id :: rest)) :
      ServerMoves s (.join false) { s with phase := .idle }
  | finish {id : ℕ} (hrun : s.threadOf id = .running) : ServerMoves s (.finish id) (s.setThread id .finished)
  | destroy (hp : s.phase ≠ .gone) : ServerMoves s .destroy s.destroy

/-- **Every event is one of the moves.** -/
theorem server_moves (h : s.step e = some s') : ServerMoves s e s' := by
  cases e with
  | init =>
    simp only [Server.step] at h
    split at h
    · cases h; exact .init ‹_›
    · cases h
  | pipe ok =>
    simp only [Server.step] at h
    split at h
    · obtain ⟨d, hd, rfl⟩ := Option.map_eq_some_iff.1 h
      cases ok with
      | true => exact .pipe ‹_› hd
      | false => exact .fails rfl
    · cases h
  | server ok =>
    simp only [Server.step] at h
    split at h
    · obtain ⟨d, hd, rfl⟩ := Option.map_eq_some_iff.1 h
      cases ok with
      | true => exact .server ‹_› hd
      | false => exact .fails rfl
    · cases h
  | spawn piped =>
    simp only [Server.step] at h
    split at h
    · obtain ⟨d, hd, rfl⟩ := Option.map_eq_some_iff.1 h
      exact .spawn ‹_› hd
    · cases h
  | thread ok =>
    simp only [Server.step] at h
    split at h
    · rw [← Option.some.inj h]
      cases ok with
      | true => exact .thread ‹_›
      | false => exact .fails rfl
    · cases h
  | bind affinity =>
    simp only [Server.step] at h
    split at h
    · obtain ⟨d, hd, h⟩ := Option.bind_eq_some_iff.1 h
      obtain ⟨w, hw, rfl⟩ := Option.map_eq_some_iff.1 h
      exact .bind ‹_› hd hw
    · cases h
  | run =>
    simp only [Server.step] at h
    split at h
    · obtain ⟨d, -, rfl⟩ := Option.map_eq_some_iff.1 h
      split
      · exact .run ‹_›
      · exact .nothing rfl
    · cases h
  | stop ok =>
    obtain ⟨d, hd, rfl⟩ := Option.map_eq_some_iff.1 h
    cases ok with
    | true =>
      split
      · exact .stop hd
      · exact .nothing rfl
    | false => exact .nothing rfl
  | quit =>
    simp only [Server.step] at h
    split at h
    · obtain ⟨d, hd, h⟩ := Option.bind_eq_some_iff.1 h
      split at h
      · rename_i hg
        cases h; exact .quit ‹_› hd hg.1
      · cases h
    · cases h
  | notify ok =>
    simp only [Server.step] at h
    split at h
    · cases h; exact .notify ‹_›
    · cases h
  | join ok =>
    simp only [Server.step] at h
    split at h
    · obtain ⟨d, hd, h⟩ := Option.bind_eq_some_iff.1 h
      cases ok with
      | true =>
        rw [if_pos rfl] at h
        split at h
        · cases h; exact .join ‹_› hd ‹_›
        · cases h
      | false => cases h; exact .joinFails ‹_›
    · cases h
  | finish id =>
    simp only [Server.step] at h
    obtain ⟨w, hw, h⟩ := Option.bind_eq_some_iff.1 h
    split at h
    · rename_i hg
      cases h
      refine .finish ?_
      unfold Server.threadOf
      rw [hw]; exact hg.1
    · cases h
  | destroy =>
    simp only [Server.step] at h
    split at h
    · cases h
    · cases h; exact .destroy ‹_›

/-! ## The phases of the calling thread -/

/-- What the phase says of the threads, with `n` worker objects. -/
def PhaseOK (th : ℕ → ThreadState) (n : ℕ) (d : Dispatcher) : ServerPhase → Prop
  | .idle => ThreadsOK th d.workers d.pipeWatcher d.stopped
  | .pipe => d.workers = [] ∧ d.stopped = false
  | .server => ThreadsOK th d.workers true d.stopped ∧ d.pipeWatcher = true
  | .spawn _ => ThreadsOK th d.workers true d.stopped ∧ d.pipeWatcher = true
  | .thread _ id => (ThreadsOK th d.workers true d.stopped ∧ d.pipeWatcher = true) ∧ th id = .unborn ∧ id < n
  | .bind _ id =>
    (ThreadsOK th d.workers true d.stopped ∧ d.pipeWatcher = true) ∧ id ∉ d.workers ∧ (th id).Unjoined
  | .loop => ThreadsOK th d.workers d.pipeWatcher d.stopped
  | .notify rest => (Joining th d.workers rest ∧ rest ≠ []) ∧ d.pipeWatcher = false ∧ d.stopped = false
  | .join rest => (Joining th d.workers rest ∧ rest ≠ []) ∧ d.pipeWatcher = false ∧ d.stopped = false
  | .gone => False

def ServerOK (s : Server) : Prop := ∀ d ∈ s.dispatcher, PhaseOK s.threadOf s.objs.length d s.phase

theorem ServerOK.of (hd : s.dispatcher = some d) (h : PhaseOK s.threadOf s.objs.length d s.phase) :
    ServerOK s := by
  intro d' hd'
  cases hd.symm.trans hd'
  exact h

variable {n : ℕ} {p : ServerPhase}

theorem PhaseOK.threads (h : PhaseOK th n d p) : ThreadsOK th d.workers d.pipeWatcher d.stopped := by
  cases p with
  | idle => exact h
  | pipe => rw [h.1, h.2]; exact threadsOK_nil
  | server => rw [h.2]; exact h.1
  | spawn i => rw [h.2]; exact h.1
  | thread i id => rw [h.1.2]; exact h.1.1
  | bind i id => rw [h.1.2]; exact h.1.1
  | loop => exact h
  | notify rest => rw [h.2.1, h.2.2]; exact h.1.1.threads h.1.2
  | join rest => rw [h.2.1, h.2.2]; exact h.1.1.threads h.1.2
  | gone => exact h.elim

/-- Threads that return are no concern of the caller. -/
theorem PhaseOK.progress (h : PhaseOK th n d p) (hth : ∀ ids, Progress th th' ids) : PhaseOK th' n d p := by
  have hall := hth d.workers
  cases p with
  | idle => exact h.threads.progress hall
  | pipe => exact h
  | server => exact ⟨h.1.progress hall, h.2⟩
  | spawn i => exact ⟨h.1.progress hall, h.2⟩
  | thread i id =>
    obtain ⟨⟨hok, hw⟩, hborn, hid⟩ := h
    refine ⟨⟨hok.progress hall, hw⟩, ?_, hid⟩
    rcases hth [id] id (List.mem_singleton_self id) with heq | ⟨hrun, -⟩
    · rw [heq]; exact hborn
    · rw [hborn] at hrun; cases hrun
  | bind i id =>
    obtain ⟨⟨hok, hw⟩, hid, hu⟩ := h
    exact ⟨⟨hok.progress hall, hw⟩, hid, (hth [id]).unjoined (List.mem_singleton_self id) hu⟩
  | loop => exact h.threads.progress hall
  | notify rest => exact ⟨⟨h.1.1.progress hall, h.1.2⟩, h.2⟩
  | join rest => exact ⟨⟨h.1.1.progress hall, h.1.2⟩, h.2⟩
  | gone => exact h

/-- The round of `join_workers` that comes next. -/
theorem joinWorkers_ok (h : Joining s.threadOf d.workers rest) (hw : d.pipeWatcher = false)
    (hs : d.stopped = false) (hd : s.dispatcher = some d) : ServerOK (s.joinWorkers d rest) := by
  cases rest with
  | nil =>
    refine .of rfl ?_
    have hok := h.stop
    rw [← hw] at hok
    exact hok
  | cons id rest => exact .of hd ⟨⟨h, List.cons_ne_nil id rest⟩, hw, hs⟩

theorem spawnWorker_ok {i : ℕ} (h : PhaseOK s.threadOf n d (.spawn i)) (hd : s.dispatcher = some d)
    (piped : Bool) :
    ServerOK (s.spawnWorker d i piped) := by
  have hreturns : ∀ ret, ServerOK (s.returns ret) := fun ret => .of hd h.threads
  unfold Server.spawnWorker
  split
  · exact hreturns _
  split
  · exact hreturns _
  · have hth := threadOf_concat (s := s) ⟨d.cpuId, piped, false, .unborn⟩ rfl
    have hnew : s.threadOf s.objs.length = .unborn := by
      by_contra hne
      exact lt_irrefl _ (lt_of_threadOf hne)
    refine .of rfl ⟨⟨h.1.progress fun id _ => Or.inl (hth id), h.2⟩, (hth _).trans hnew, ?_⟩
    rw [List.length_append, List.length_singleton]
    exact Nat.lt_succ_self _

theorem bindWorker_ok {i id : ℕ} (h : PhaseOK s.threadOf n d (.bind i id)) (hd : s.dispatcher = some d)
    (w : WorkerObj) (affinity : Bool) : ServerOK (s.bindWorker d i id w affinity) := by
  unfold Server.bindWorker
  split
  · exact .of hd h.threads
  · obtain ⟨⟨hok, hw⟩, hid, hu⟩ := h
    exact .of rfl ⟨hok.push hid hu, hw⟩

theorem startThread_ok {i id : ℕ} (h : PhaseOK s.threadOf s.objs.length d (.thread i id)) :
    PhaseOK (s.setThread id .running).threadOf n d (.bind i id) := by
  obtain ⟨⟨hok, hw⟩, hborn, hid⟩ := h
  have hth := threadOf_setThread hid .running
  have hout : id ∉ d.workers := fun hmem => hok.born id hmem hborn
  refine ⟨⟨hok.progress ?_, hw⟩, hout, ?_⟩
  · intro j hj
    refine Or.inl ((hth j).trans (if_neg ?_))
    rintro rfl
    exact hout hj
  · exact Or.inl ((hth id).trans (if_pos rfl))

/-- **Every event keeps the invariant.** -/
theorem step_server_ok (s : Server) (e : ServerEvent) (s' : Server) (h : ServerOK s) (hst : s.step e = some s') :
    ServerOK s' := by
  have hphase : ∀ {p d}, s.phase = p → s.dispatcher = some d → PhaseOK s.threadOf s.objs.length d p :=
    fun hp hd => hp ▸ h _ hd
  cases server_moves hst with
  | init hp => exact .of rfl ⟨rfl, rfl⟩
  | fails he => exact fun d hd => (h d hd).threads
  | pipe hp hd =>
    obtain ⟨hnil, hs⟩ := hphase hp hd
    refine .of rfl ⟨?_, rfl⟩
    rw [hnil, hs]; exact threadsOK_nil
  | server hp hd =>
    have hph := hphase hp hd
    exact .of rfl hph
  | spawn hp hd => exact spawnWorker_ok (hphase hp hd) hd _
  | thread hp => exact fun d hd => startThread_ok (hphase hp hd)
  | bind hp hd hw => exact bindWorker_ok (hphase hp hd) hd _ _
  | run hp => exact fun d hd => (h d hd).threads
  | stop hd =>
    refine .of rfl ?_
    have hp := h _ hd
    cases hphase : s.phase <;> rw [hphase] at hp <;> exact hp
  | nothing he => exact h
  | quit hp hd hw =>
    have hok := (h _ hd).threads
    obtain ⟨hs, hall⟩ := hok.unjoined hw
    exact joinWorkers_ok ⟨hok.nodup, ⟨[], rfl, fun id hid => by cases hid⟩, hall⟩ rfl hs rfl
  | @notify id rest ok hp =>
    intro d hd
    obtain ⟨⟨hjoin, hne⟩, hrest⟩ := hphase hp hd
    -- the notification leaves every thread as it was
    have hth := threadOf_modify (s := s) (f := fun w => { w with quit := w.quit || (ok && w.piped) })
      (fun _ => rfl) id
    exact ⟨⟨hjoin.progress fun i _ => Or.inl (hth i), hne⟩, hrest⟩
  | join hp hd hfin =>
    obtain ⟨⟨hjoin, -⟩, hw, hs⟩ := hphase hp hd
    have hth := threadOf_setThread (lt_of_threadOf (by rw [hfin]; decide)) .joined
    exact joinWorkers_ok (hjoin.join ((hth _).trans (if_pos rfl)) fun i hi => (hth i).trans (if_neg hi)) hw hs hd
  | joinFails hp => exact fun d hd => (h d hd).threads
  | @finish id hrun =>
    intro d hd
    have hth := threadOf_setThread (lt_of_threadOf (by rw [hrun]; decide)) .finished
    have hlen : (s.setThread id .finished).objs.length = s.objs.length := List.length_modify _ _ _
    rw [hlen]
    refine (h d hd).progress fun ids i _ => ?_
    rw [hth]
    by_cases hi : i = id
    · rw [if_pos hi, hi]; exact Or.inr ⟨hrun, rfl⟩
    · rw [if_neg hi]; exact Or.inl rfl
  | destroy hp => exact fun d hd => by cases hd

/-! ## Deletions -/

/-- `spawn_worker` deletes a worker that it could not bind. -/
def BindFails (s : Server) (e : ServerEvent) : Prop :=
  ∃ i id d w affinity, e = .bind affinity ∧ s.phase = .bind i id ∧ s.dispatcher = some d ∧ s.objs[id]? = some w ∧
    s.options.bindCpu = true ∧ w.bindCpu affinity = false

/-- The server is destroyed with workers whose `join_workers` has not come to its end. -/
def DestroysEarly (s : Server) (e : ServerEvent) : Prop :=
  e = .destroy ∧ ∃ d, s.dispatcher = some d ∧ d.workers ≠ [] ∧ d.stopped = false

/-- The thread of every object deleted was never created or had been joined. -/
def DeletesJoined (s : Server) : Prop := ∀ id t, (id, t) ∈ s.deletes → t = .unborn ∨ t = .joined

theorem joinWorkers_deletes (s : Server) (d : Dispatcher) (rest : List ℕ) :
    (s.joinWorkers d rest).deletes = s.deletes := by
  cases rest <;> rfl

theorem spawnWorker_deletes (s : Server) (d : Dispatcher) (i : ℕ) (piped : Bool) :
    (s.spawnWorker d i piped).deletes = s.deletes := by
  unfold Server.spawnWorker
  split
  · rfl
  · split <;> rfl

/-- Events that delete nothing. -/
theorem deletes_kept (he : e.deletes = false) (hdel : s'.deletes = s.deletes) (hsafe : DeletesJoined s) :
    DeletesJoined s' ↔ ¬ BindFails s e ∧ ¬ DestroysEarly s e := by
  have hsafe' : DeletesJoined s' := by
    unfold DeletesJoined
    rw [hdel]; exact hsafe
  refine ⟨fun _ => ⟨?_, ?_⟩, fun _ => hsafe'⟩
  · rintro ⟨i, id, d, w, affinity, rfl, -⟩
    cases he
  · rintro ⟨rfl, -⟩
    cases he

/-- `spawn_worker` behind `create_thread`. -/
theorem bind_deletes {i id : ℕ} {w : WorkerObj} {affinity : Bool} (hp : s.phase = .bind i id)
    (hd : s.dispatcher = some d) (hw : s.objs[id]? = some w) (hu : (s.threadOf id).Unjoined)
    (hsafe : DeletesJoined s) :
    DeletesJoined (s.bindWorker d i id w affinity) ↔
      ¬ BindFails s (.bind affinity) ∧ ¬ DestroysEarly s (.bind affinity) := by
  unfold Server.bindWorker
  split
  · rename_i hfail
    have hbad : BindFails s (.bind affinity) := ⟨i, id, d, w, affinity, rfl, hp, hd, hw, hfail⟩
    refine ⟨fun hsafe' => ?_, fun hno => absurd hbad hno.1⟩
    have hmem : (id, s.threadOf id) ∈ s.deletes ++ [(id, s.threadOf id)] :=
      List.mem_append_right _ (List.mem_singleton_self _)
    rcases hsafe' id (s.threadOf id) hmem with hborn | hjoined
    · exact absurd hborn hu.born
    · exact absurd hjoined hu.not_joined
  · rename_i hok
    refine ⟨fun _ => ⟨?_, ?_⟩, fun _ => hsafe⟩
    · rintro ⟨i', id', d', w', affinity', he, hp', -, hw', hfail⟩
      cases he
      cases hp.symm.trans hp'
      cases hw.symm.trans hw'
      exact hok hfail
    · rintro ⟨he, -⟩
      cases he

/-- `~GenericDispatcher`. -/
theorem destroy_deletes (h : ServerOK s) (hsafe : DeletesJoined s) :
    DeletesJoined s.destroy ↔ ¬ BindFails s .destroy ∧ ¬ DestroysEarly s .destroy := by
  have hbind : ¬ BindFails s .destroy := by
    rintro ⟨_, _, _, _, _, he, -⟩
    cases he
  have hmem : ∀ id t, (id, t) ∈ s.destroy.deletes ↔
      (id, t) ∈ s.deletes ∨ ∃ d, s.dispatcher = some d ∧ id ∈ d.workers ∧ s.threadOf id = t := by
    intro id t
    unfold Server.destroy
    dsimp only
    rw [foldl_delete]
    cases hd : s.dispatcher <;> simp
  constructor
  · intro hsafe'
    refine ⟨hbind, ?_⟩
    rintro ⟨-, d, hd, hne, hstop⟩
    obtain ⟨id, hid, hu⟩ := (h d hd).threads.left hstop hne
    rcases hsafe' id _ ((hmem id _).2 (Or.inr ⟨d, hd, hid, rfl⟩)) with hborn | hjoined
    · exact hu.born hborn
    · exact hu.not_joined hjoined
  · rintro ⟨-, hno⟩ id t hin
    rcases (hmem id t).1 hin with hin | ⟨d, hd, hid, rfl⟩
    · exact hsafe id t hin
    · cases hstop : d.stopped with
      | true => exact Or.inr ((h d hd).threads.joined hstop id hid)
      | false => exact absurd ⟨rfl, d, hd, List.ne_nil_of_mem hid, hstop⟩ hno

/-- Both kinds of events happen. -/
theorem bad_enabled (h : ServerOK s) (hbad : BindFails s e ∨ DestroysEarly s e) : ∃ s', s.step e = some s' := by
  rcases hbad with ⟨i, id, d, w, affinity, rfl, hp, hd, hw, -⟩ | ⟨rfl, d, hd, -⟩
  · refine ⟨s.bindWorker d i id w affinity, ?_⟩
    simp only [Server.step, hp, hd, hw, Option.bind_some, Option.map_some]
  · refine ⟨s.destroy, if_neg fun hgone => ?_⟩
    have hph := h d hd
    rw [hgone] at hph
    exact hph

/-- **What an event deletes.** -/
theorem step_deletes (h : ServerOK s) (hst : s.step e = some s') (hsafe : DeletesJoined s) :
    DeletesJoined s' ↔ ¬ BindFails s e ∧ ¬ DestroysEarly s e := by
  cases server_moves hst with
  | init hp => exact deletes_kept rfl rfl hsafe
  | fails he => exact deletes_kept he rfl hsafe
  | pipe hp hd => exact deletes_kept rfl rfl hsafe
  | server hp hd => exact deletes_kept rfl rfl hsafe
  | spawn hp hd => exact deletes_kept rfl (spawnWorker_deletes s _ _ _) hsafe
  | thread hp => exact deletes_kept rfl rfl hsafe
  | bind hp hd hw =>
    have hph := h _ hd
    rw [hp] at hph
    exact bind_deletes hp hd hw hph.2.2 hsafe
  | run hp => exact deletes_kept rfl rfl hsafe
  | stop hd => exact deletes_kept rfl rfl hsafe
  | nothing he => exact deletes_kept he rfl hsafe
  | quit hp hd hw => exact deletes_kept rfl (joinWorkers_deletes _ _ _) hsafe
  | notify hp => exact deletes_kept rfl rfl hsafe
  | join hp hd hfin => exact deletes_kept rfl (joinWorkers_deletes _ _ _) hsafe
  | joinFails hp => exact deletes_kept rfl rfl hsafe
  | finish hrun => exact deletes_kept rfl rfl hsafe
  | destroy hp => exact destroy_deletes h hsafe

theorem init_server_ok (o : GenericServerOptions) : ServerOK (Server.init o) := fun d hd => by cases hd

/-- **Worker objects and their threads.** In a run of `init`, `run`, `stop` and the
destructor with any outcomes, every worker deleted has a thread that was never created or
was joined exactly if no worker fails to be bound to its cpu, and the server is
destroyed with no workers or after a `join_workers` that came to its end. -/
theorem workers_deleted_joined (o : GenericServerOptions) (es : List ServerEvent) :
    Always Server.step DeletesJoined (Server.init o) es ↔
      Along Server.step (fun s e => ¬ BindFails s e ∧ ¬ DestroysEarly s e) (Server.init o) es := by
  have hnone : DeletesJoined (Server.init o) := fun id t hin => by cases hin
  refine always_iff_along (R := fun _ _ => True) ?_ ?_ ?_ (init_server_ok o) hnone
    (along_of_forall fun _ _ => trivial)
  · exact fun s e s' h _ hst => step_server_ok s e s' h hst
  · exact fun s e s' h _ hsafe hst => step_deletes h hst hsafe
  · intro s e h _ hbad
    exact bad_enabled h (by tauto)

/-- The affinity call fails for the only worker: its object is deleted while its thread
runs. -/
theorem failed_bind_deletes_running :
    ∃ s, run Server.step (Server.init { GenericServerOptions.new with workerNum := 1, workerFactory := true })
        [.init, .pipe true, .server true, .spawn true, .thread true, .bind false] = some s ∧
      s.ret = SERVER_ERROR ∧ s.deletes = [(0, .running)] ∧ ¬ DeletesJoined s := by
  refine ⟨_, rfl, rfl, rfl, fun hsafe => ?_⟩
  rcases hsafe 0 .running List.mem_cons_self with h | h <;> cases h

/-- A second worker without a thread: the destructor meets the first one running. -/
example :
    (run Server.step (Server.init { GenericServerOptions.new with workerNum := 2, workerFactory := true })
      [.init, .pipe true, .server true, .spawn true, .thread true, .bind true, .spawn true, .thread false,
        .destroy]).map Server.deletes = some [(0, .running)] := by decide

end Spigeon
