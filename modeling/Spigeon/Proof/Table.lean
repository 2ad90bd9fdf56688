import Spigeon.Lib.Lists
import Spigeon.Proof.Removal
import Spigeon.Proof.System

/-!
# Descriptors in the hands of a worker

A worker holds a descriptor in its table, or between the two steps of `close_conn`. As
long as handlers leave their connections alone, every callback keeps what the worker
holds, and only `close` gives a descriptor up.

* `TableOK`: every watched connection is in the table at its descriptor.
* `Retains`: a callback that moves descriptors around inside the worker at most.
  `visited_keeps`, `closeConn_keeps`: the callbacks do.
* `createConnection_holds`, `own_step_holds`: what a worker holds after a step.
-/

namespace Spigeon

open Lifetime

/-- Handlers called by the task leave their connection alone. -/
def Task.polite : Task → Bool
  | .readIo _ env => env.answer.isLeave
  | _ => true

def WorkerEvent.polite : WorkerEvent → Bool
  | .io _ _ _ env _ => env.answer.isLeave
  | _ => true

/-- The descriptors that were removed from the table and are about to be closed. -/
def Worker.closingFds (w : Worker) : List ℕ := w.todo.filterMap Task.closeFd

/-- The number of places in which a worker has the descriptor: its table, and the closes
to come. -/
def Worker.holds (w : Worker) (fd : ℕ) : ℕ :=
  (if (w.lookup fd).isSome then 1 else 0) + w.closingFds.count fd

structure TableOK (w : Worker) : Prop where
  registered : ∀ id ∈ w.watched, ∀ c, w.objs[id]? = some c → w.lookup c.fd = some id
  polite : ∀ t ∈ w.todo, t.polite = true
  room : 0 < w.conns.length

/-- The worker holds what it held before. -/
structure Retains (w w' : Worker) : Prop where
  table : TableOK w'
  holds : ∀ fd, w'.holds fd = w.holds fd

variable {w w' w'' : Worker} {id : ℕ} {c c' : Conn}

theorem Retains.trans (h : Retains w w') (h' : Retains w' w'') : Retains w w'' :=
  ⟨h'.table, fun fd => (h'.holds fd).trans (h.holds fd)⟩

theorem holds_congr (hconns : w'.conns = w.conns) (htodo : w'.closingFds = w.closingFds) (fd : ℕ) :
    w'.holds fd = w.holds fd := by
  unfold Worker.holds Worker.lookup
  rw [hconns, htodo]

/-! ## Callbacks -/

theorem visit_keeps (h : TableOK w) (hid : id ∈ w.watched) (hobj : w.objs[id]? = some c) (hfd : c'.fd = c.fd)
    (bytes : List UInt8) : Retains w (w.visit id c' bytes) := by
  refine ⟨⟨?_, h.polite, h.room⟩, holds_congr rfl rfl⟩
  intro i hi c₀ hobj₀
  rcases List.set_cases hobj₀ with ⟨rfl, rfl⟩ | ⟨-, hobj₀⟩
  · rw [hfd]; exact h.registered i hid c hobj
  · exact h.registered i hi c₀ hobj₀

/-- A task that closes nothing and calls no handler. -/
theorem push_keeps (h : TableOK w) {t : Task} (hclose : t.closeFd = none) (hpol : t.polite = true) :
    Retains w (w.push t) := by
  refine ⟨⟨h.registered, ?_, h.room⟩, holds_congr rfl (List.filterMap_cons_none hclose)⟩
  intro u hu
  rcases List.mem_cons.1 hu with rfl | hu
  · exact hpol
  · exact h.polite u hu

/-- After `close_conn` the entry of the table is NULL and the others are as before. -/
theorem lookup_closeConn (hlook : w.lookup c.fd = some id) (fd : ℕ) :
    (w.closeConn id c).lookup fd = if c.fd = fd then none else w.lookup fd := by
  have hlt : c.fd < w.conns.length := (List.getElem?_eq_some_iff.1 (lookup_eq_some.1 hlook)).1
  have hset : (w.closeConn id c).lookup fd = ((w.conns.set c.fd none)[fd]?).bind fun p => p := rfl
  rw [hset, List.getElem?_set]
  by_cases he : c.fd = fd
  · rw [if_pos he, if_pos he, if_pos hlt]; rfl
  · rw [if_neg he, if_neg he]; rfl

/-- `close_conn` moves the descriptor from the table to the closes to come. -/
theorem closeConn_keeps (hok : WorkerOK w) (h : TableOK w) (hid : id ∈ w.watched) (hobj : w.objs[id]? = some c) :
    Retains w (w.closeConn id c) := by
  have hlook := h.registered id hid c hobj
  refine ⟨⟨?_, ?_, ?_⟩, ?_⟩
  · intro i hi c₀ hobj₀
    obtain ⟨hne, hi⟩ := hok.nodup.mem_erase_iff.1 hi
    rcases List.set_cases hobj₀ with ⟨he, -⟩ | ⟨-, hobj₀⟩
    · exact absurd he hne
    · have hlook₀ := h.registered i hi c₀ hobj₀
      rw [lookup_closeConn hlook, if_neg]
      · exact hlook₀
      · -- two connections at one entry would be the same
        intro he
        rw [he, hlook₀, Option.some.injEq] at hlook
        exact hne hlook
  · intro t ht
    rcases List.mem_cons.1 ht with rfl | ht
    · rfl
    · exact h.polite t ht
  · have hroom : 0 < (w.conns.set c.fd none).length := by rw [List.length_set]; exact h.room
    exact hroom
  · intro fd
    have hclosing : (w.closeConn id c).closingFds = c.fd :: w.closingFds := rfl
    unfold Worker.holds
    rw [lookup_closeConn hlook, hclosing, List.count_cons]
    by_cases he : c.fd = fd
    · subst he
      rw [if_pos rfl, hlook]
      simp only [Option.isSome_none, Option.isSome_some, beq_self_eq_true, if_true, Bool.false_eq_true, if_false]
      omega
    · have hne : ¬ (c.fd == fd) = true := by simpa using he
      rw [if_neg he, if_neg hne, Nat.add_zero]

theorem visited_keeps (hok : WorkerOK w) (h : TableOK w) (hid : id ∈ w.watched) (hobj : w.objs[id]? = some c)
    (hv : Visited w id c w') : Retains w w' := by
  cases hv with
  | stay hfd _ => exact visit_keeps h hid hobj hfd _
  | close hfd =>
    rename_i bytes
    have hvisit := visit_keeps h hid hobj hfd bytes
    exact hvisit.trans (closeConn_keeps (visit_ok hok hid hobj hfd _) hvisit.table hid (visit_obj hobj _))
  | returns ret hfd hlast =>
    rename_i bytes
    have hvisit := visit_keeps h hid hobj hfd bytes
    exact hvisit.trans (push_keeps hvisit.table rfl rfl)

theorem processTimeout_keeps (hok : WorkerOK w) (h : TableOK w) (hid : id ∈ w.watched)
    (hobj : w.objs[id]? = some c) :
    Retains w (w.processTimeout id c) := by
  have hvisit := visit_keeps h hid hobj rfl []
  have hok' := visit_ok hok hid hobj rfl []
  unfold Worker.processTimeout
  dsimp only
  split
  · -- the record of the decision changes nothing for the table
    set u : Worker := { w.visit id c [] with times := (w.visit id c []).times ++ [.expire id w.now] }
    have hrec : Retains (w.visit id c []) u :=
      ⟨⟨hvisit.table.registered, hvisit.table.polite, hvisit.table.room⟩, holds_congr rfl rfl⟩
    have hok'' : WorkerOK u := ⟨hok'.slot, hok'.created, hok'.nodup, hok'.live, hok'.closing, hok'.past,
      hok'.sound⟩
    exact (hvisit.trans hrec).trans (closeConn_keeps hok'' hrec.table hid (visit_obj hobj []))
  · exact hvisit

/-! ## Creating and closing -/

/-- `create_connection` fills the entry of its descriptor, which the table has room for. -/
theorem lookup_create (h : TableOK w) (sk : Socket) (fd : ℕ) :
    (w.createConnection sk).lookup fd = if sk.fd = fd then some w.objs.length else w.lookup fd := by
  have hlt := (roomFor_length h.room sk.fd).1
  have hset : (w.createConnection sk).lookup fd =
      (((roomFor w.conns sk.fd).set sk.fd (some w.objs.length))[fd]?).bind fun p => p := rfl
  rw [hset, List.getElem?_set]
  by_cases he : sk.fd = fd
  · rw [if_pos he, if_pos he, if_pos hlt]; rfl
  · rw [if_neg he, if_neg he]
    -- growing the table changes no entry
    apply Option.ext
    intro i
    rw [Option.bind_eq_some_iff, lookup_eq_some]
    constructor
    · rintro ⟨p, hp, rfl⟩; exact roomFor_getElem?.1 hp
    · intro hp; exact ⟨some i, roomFor_getElem?.2 hp, rfl⟩

theorem createConnection_table (hok : WorkerOK w) (h : TableOK w) {sk : Socket} (hfree : w.lookup sk.fd = none) :
    TableOK (w.createConnection sk) := by
  obtain ⟨c, hobjs, hfd, -⟩ := createConnection_objs (w := w) sk
  refine ⟨?_, h.polite, ?_⟩
  · intro i hi c₀ hobj₀
    rw [hobjs] at hobj₀
    rw [lookup_create h]
    rcases List.mem_cons.1 hi with rfl | hi
    · rw [List.getElem?_concat_length, Option.some.injEq] at hobj₀
      rw [if_pos (by rw [← hobj₀, hfd])]
    · rw [List.getElem?_append_left (hok.created i hi)] at hobj₀
      have hlook := h.registered i hi c₀ hobj₀
      rw [if_neg]
      · exact hlook
      · intro he
        rw [← he, hfree] at hlook
        cases hlook
  · have hroom : 0 < ((roomFor w.conns sk.fd).set sk.fd (some w.objs.length)).length := by
      rw [List.length_set]
      exact (roomFor_length h.room sk.fd).2
    exact hroom

theorem createConnection_holds (h : TableOK w) {sk : Socket} (hfree : w.lookup sk.fd = none) (fd : ℕ) :
    (w.createConnection sk).holds fd = w.holds fd + if sk.fd = fd then 1 else 0 := by
  have hclosing : (w.createConnection sk).closingFds = w.closingFds := rfl
  unfold Worker.holds
  rw [lookup_create h, hclosing]
  by_cases he : sk.fd = fd
  · rw [if_pos he, if_pos he, ← he, hfree]
    simp only [Option.isSome_some, Option.isSome_none, if_true, Bool.false_eq_true, if_false]
    omega
  · rw [if_neg he, if_neg he, Nat.add_zero]

/-- A callback starts with tasks that close nothing. -/
theorem start_keeps (h : TableOK w) (htodo : w.todo = []) {ts : List Task}
    (hts : ∀ t ∈ ts, t.closeFd = none ∧ t.polite = true) : Retains w { w with todo := ts } := by
  refine ⟨⟨h.registered, fun t ht => (hts t ht).2, h.room⟩, holds_congr rfl ?_⟩
  unfold Worker.closingFds
  rw [htodo, List.filterMap_nil]
  exact List.filterMap_eq_nil_iff.2 fun t ht => (hts t ht).1

/-- The next task leaves the list, and with it the descriptor it closes. -/
theorem pop_holds (h : TableOK w) {t : Task} {ts : List Task} (htodo : w.todo = t :: ts) :
    TableOK { w with todo := ts } ∧
      ∀ fd, Worker.holds { w with todo := ts } fd + (if t.closeFd = some fd then 1 else 0) = w.holds fd := by
  refine ⟨⟨h.registered, fun u hu => h.polite u (by rw [htodo]; exact List.mem_cons_of_mem _ hu), h.room⟩, ?_⟩
  intro fd
  have hlook : Worker.lookup { w with todo := ts } fd = w.lookup fd := rfl
  have hcount : w.closingFds.count fd =
      (Worker.closingFds { w with todo := ts }).count fd + if t.closeFd = some fd then 1 else 0 := by
    unfold Worker.closingFds
    rw [htodo]
    cases hfd : t.closeFd with
    | none => rw [List.filterMap_cons_none hfd]; rfl
    | some f => rw [List.filterMap_cons_some hfd, List.count_cons]; simp only [beq_iff_eq, Option.some.injEq]
  unfold Worker.holds
  rw [hlook, hcount]
  omega

/-- The handlers of the tasks to come leave their connections alone. -/
theorem TableOK.not_removes (h : TableOK w) {e : WorkerEvent} : ¬ Runs TaskRemoves w e := by
  rintro ⟨-, t, ht, hrem⟩
  have hpol := h.polite t (List.mem_of_mem_take ht)
  cases t with
  | readIo fd env =>
    obtain ⟨i, c, c₁, -, -, -, -, hleave⟩ := hrem
    rw [show (Task.readIo fd env).polite = env.answer.isLeave from rfl, hleave] at hpol
    cases hpol
  | _ => exact hrem

/-! ## Steps -/

/-- A task other than a `close`. -/
theorem task_keeps (hinv : WorkerInv w) (h : TableOK w) {t : Task} {ts : List Task} (htodo : w.todo = t :: ts)
    (hclose : t.closeFd = none) (hexec : Worker.exec { w with todo := ts } t = some w') :
    Retains { w with todo := ts } w' := by
  have hpop := pop_ok hinv.1 htodo
  have htable := (pop_holds h htodo).1
  rcases exec_cases hexec with hw | ⟨i, fd, rfl, -⟩ | ⟨i, ret, c, rfl, hobj, hw⟩ | ⟨fd, i, c, hlook, hobj, hf⟩
  · rw [hw]; exact ⟨htable, fun _ => rfl⟩
  · cases hclose
  · have hid : i ∈ w.watched := returned_watched hinv htodo
    rw [hw]; exact closeConn_keeps hpop htable hid hobj
  · have hid := (hpop.slot fd i hlook).1
    cases hf with
    | visited hv => exact visited_keeps hpop htable hid hobj hv
    | slot hw => rw [hw]; exact closeConn_keeps hpop htable hid hobj
    | handler ht ha hrem htcp =>
      -- the handler was said to leave its connection alone
      have hpol := h.polite t (by rw [htodo]; exact List.mem_cons_self)
      rw [ht] at hpol
      exact absurd (hpol.symm.trans ha) Bool.noConfusion
    | stalled ht hs hfd hlast hw => rw [hw]; exact visit_keeps htable hid hobj hfd _

theorem next_holds (hinv : WorkerInv w) (h : TableOK w) {t : Task} {ts : List Task} (htodo : w.todo = t :: ts)
    (hexec : Worker.exec { w with todo := ts } t = some w') :
    TableOK w' ∧ ∀ fd, w'.holds fd + (if t.closeFd = some fd then 1 else 0) = w.holds fd := by
  obtain ⟨htable, hpop⟩ := pop_holds h htodo
  cases hclose : t.closeFd with
  | none =>
    have hkeeps := task_keeps hinv h htodo hclose hexec
    refine ⟨hkeeps.table, fun fd => ?_⟩
    have hfd := hpop fd
    rw [hclose] at hfd
    rw [hkeeps.holds fd]
    exact hfd
  | some f =>
    -- the `close` itself changes neither the table nor the tasks
    cases t with
    | close i g =>
      rw [← Option.some.inj hexec, ← hclose]
      exact ⟨⟨htable.registered, htable.polite, htable.room⟩, hpop⟩
    | _ => cases hclose

/-- **A step of the worker's own loop** keeps what the worker holds, except for the
descriptor that it closes. -/
theorem own_step_holds {e : WorkerEvent} (hinv : WorkerInv w) (h : TableOK w) (hpol : e.polite = true)
    (hown : e.own = true) (hst : w.step e = some w') :
    TableOK w' ∧ ∀ fd, w'.holds fd + (if w.shutFd e = some fd then 1 else 0) = w.holds fd := by
  -- what does not run a task closes nothing
  have hkeeps : ∀ {u : Worker}, Retains w u → TableOK u ∧ ∀ fd, u.holds fd + 0 = w.holds fd :=
    fun hk => ⟨hk.table, fun fd => hk.holds fd⟩
  have hmove := worker_moves hst
  cases hmove with
  | next htodo hexec =>
    rename_i t ts
    have hshut : w.shutFd .next = t.closeFd := by simp [Worker.shutFd, WorkerEvent.isNext, htodo]
    rw [hshut]
    exact next_holds hinv h htodo hexec
  | clock hidle => exact hkeeps ⟨⟨h.registered, h.polite, h.room⟩, holds_congr rfl rfl⟩
  | create hidle => cases hown
  | io hidle hts =>
    refine hkeeps (start_keeps h hidle ?_)
    intro t ht
    rcases hts t ht with ⟨fd, rfl⟩ | ⟨fd, rfl⟩
    · exact ⟨rfl, hpol⟩
    · exact ⟨rfl, rfl⟩
  | timer hidle hid hobj => exact hkeeps (processTimeout_keeps hinv.1 h hid hobj)
  | reply hidle hid hobj => exact hkeeps (visit_keeps h hid hobj (Conn.fd_addReply _ _) [])
  | stop hidle hts => cases hown

/-- The worker stops: one task for each entry of the table. -/
theorem stop_keeps (h : TableOK w) (hst : w.step .stop = some w') : Retains w w' := by
  have hmove := worker_moves hst
  cases hmove with
  | stop hidle hts =>
    refine start_keeps h hidle ?_
    intro t ht
    obtain ⟨fd, rfl⟩ := hts t ht
    exact ⟨rfl, rfl⟩

theorem init_table_ok (timeout : ℕ) (ssl : Bool) (now : ℕ) : TableOK (Worker.init timeout ssl now) := by
  refine ⟨?_, ?_, ?_⟩
  · intro i hi; cases hi
  · intro t ht; cases ht
  · have hlen : (Worker.init timeout ssl now).conns.length = INITIAL_FD_NUM := List.length_replicate
    rw [hlen]; decide

end Spigeon
