import Spigeon.Proof.Removal
import Spigeon.Spec.Manager

/-!
# The tables indexed by descriptors

`_sockets` starts empty and `_conns` with 1024 entries, and both grow to `fd*2` when a descriptor
comes that they have no entry for. This makes room for every descriptor but 0 in an empty
table. `write_io` checks its descriptor against `_conns` and then reads `_sockets` as well.

* `lt_roomFor_iff`: when the table has an entry for the descriptor after it has grown.
* `step_call`: what each call needs, and what it leaves in the tables.
* `tables_in_bounds_iff`: all accesses of a run are in bounds exactly if each call gets what it needs.
-/

namespace Spigeon

open Lts

/-! ## Growing and storing -/

variable {α : Type} {l : List (Option α)} {fd : ℕ}

theorem length_roomFor (l : List (Option α)) (fd : ℕ) :
    (roomFor l fd).length = if l.length ≤ fd then fd * 2 else l.length := by
  unfold roomFor resize
  split
  · rw [List.length_append, List.length_take, List.length_replicate]
    omega
  · rfl

theorem lt_roomFor_iff : fd < (roomFor l fd).length ↔ fd ≠ 0 ∨ l ≠ [] := by
  rw [length_roomFor, ← List.length_pos_iff]
  split <;> omega

theorem le_length_roomFor (l : List (Option α)) (fd : ℕ) : l.length ≤ (roomFor l fd).length := by
  rw [length_roomFor]
  split <;> omega

/-- An entry is found again in the table that has grown, unless it is replaced. -/
theorem roomFor_set_keeps {i : ℕ} {a : α} (b : Option α) (h : l[i]? = some (some a)) (hne : i ≠ fd) :
    ((roomFor l fd).set fd b)[i]? = some (some a) := by
  rw [List.getElem?_set_ne hne.symm]
  exact roomFor_getElem?.mpr h

theorem assign_of_lt {β : Type} {v : List β} {i : ℕ} (h : i < v.length) (b : β) :
    assign v i b = some (v.set i b) := if_pos h

/-- A socket enters the table, unless it has descriptor 0 and the table is empty. -/
theorem enter_eq (m : NetworkManager) (kind : SockKind) (fd : ℕ) :
    m.enter kind fd = if fd ≠ 0 ∨ m.sockets ≠ [] then
      some ({ m with sockets := (roomFor m.sockets fd).set fd (some ⟨m.made, kind, fd⟩), made := m.made + 1 },
        ⟨m.made, kind, fd⟩)
      else none := by
  unfold NetworkManager.enter assign
  dsimp only
  by_cases h : fd ≠ 0 ∨ m.sockets ≠ []
  · rw [if_pos h, if_pos (lt_roomFor_iff.mpr h)]
    rfl
  · rw [if_neg h, if_neg (mt lt_roomFor_iff.mp h)]
    rfl

/-! ## One call -/

/-- Connections have entries in the tables of their workers. -/
def TablesOK (t : Tables) : Prop :=
  ∀ i, 0 < (t.workers i).conns.length ∧ ∀ fd ∈ (t.workers i).fds, fd < (t.workers i).conns.length

/-- The descriptor of a socket that the call enters. -/
def TableCall.enters : TableCall → Option ℕ
  | .createServer _ fd => some fd
  | .wrapSocket _ fd => some fd
  | _ => none

/-- The descriptor for which the call is a `write_io`, with the worker. -/
def TableCall.writes : TableCall → Option (ℕ × ℕ)
  | .writeIo i fd => some (i, fd)
  | _ => none

/-- The first socket does not have descriptor 0. -/
def NotZeroFirst (t : Tables) (e : TableCall) : Prop := ∀ fd ∈ e.enters, fd ≠ 0 ∨ t.manager.sockets ≠ []

/-- A descriptor with an entry in `_conns` has one in `_sockets`. -/
def WritesInside (t : Tables) (e : TableCall) : Prop :=
  ∀ p ∈ e.writes, p.2 < (t.workers p.1).conns.length → p.2 < t.manager.sockets.length

/-- The entries of `_conns` that the call replaces. -/
def Replaces (t : Tables) (i fd : ℕ) : TableCall → Prop
  | .createConnection j f => j = i ∧ f = fd
  | .removeConn j id => j = i ∧ (t.workers i).fds[id]? = some fd
  | _ => False

/-- The call is in bounds, loses no entry, and stores the new socket. -/
structure Served (t : Tables) (e : TableCall) (t' : Tables) : Prop where
  inBounds : t.step e = some t'
  sockets : ∀ fd s, t.manager.sockets[fd]? = some (some s) → fd ∉ e.enters →
    t'.manager.sockets[fd]? = some (some s)
  conns : ∀ i fd id, (t.workers i).conns[fd]? = some (some id) → ¬ Replaces t i fd e →
    (t'.workers i).conns[fd]? = some (some id)
  stored : ∀ fd ∈ e.enters, ∃ s : Socket, s.id = t.manager.made ∧ s.fd = fd ∧
    t'.manager.sockets[fd]? = some (some s)

variable {t t' : Tables} {e : TableCall}

/-- A call that enters a socket. -/
theorem enter_served {kind : SockKind} {m : NetworkManager} (hstep : t.step e = some { t with manager := m })
    (henters : e.enters = some fd)
    (hsockets : m.sockets = (roomFor t.manager.sockets fd).set fd (some ⟨t.manager.made, kind, fd⟩))
    (hroom : fd ≠ 0 ∨ t.manager.sockets ≠ []) : Served t e { t with manager := m } := by
  refine ⟨hstep, ?_, fun i f id hid _ => hid, ?_⟩
  · intro f s hs hne
    have hf : f ≠ fd := by
      rintro rfl
      exact hne henters
    rw [hsockets]
    exact roomFor_set_keeps _ hs hf
  · intro f hf
    rw [henters] at hf
    cases hf
    refine ⟨⟨t.manager.made, kind, fd⟩, rfl, rfl, ?_⟩
    rw [hsockets]
    exact List.getElem?_set_self (lt_roomFor_iff.mpr hroom)

/-- A call that changes no table. -/
theorem same_served (hstep : t.step e = some t) (henters : e.enters = none) : Served t e t := by
  refine ⟨hstep, fun f s hs _ => hs, fun i f id hid _ => hid, ?_⟩
  intro f hf
  rw [henters] at hf
  cases hf

theorem setWorker_self (t : Tables) (i : ℕ) (w : WorkerTable) : (t.setWorker i w).workers i = w :=
  Function.update_self ..

theorem setWorker_of_ne (t : Tables) {i j : ℕ} (h : j ≠ i) (w : WorkerTable) :
    (t.setWorker i w).workers j = t.workers j :=
  Function.update_of_ne h ..

/-- A call that replaces one entry of `_conns`. -/
theorem worker_served {i : ℕ} {w : WorkerTable} (hstep : t.step e = some (t.setWorker i w))
    (henters : e.enters = none)
    (hkeep : ∀ fd id, (t.workers i).conns[fd]? = some (some id) → ¬ Replaces t i fd e →
      w.conns[fd]? = some (some id)) :
    Served t e (t.setWorker i w) := by
  refine ⟨hstep, fun f s hs _ => hs, ?_, ?_⟩
  · intro j f id hid hrep
    by_cases hj : j = i
    · subst hj
      rw [setWorker_self]
      exact hkeep f id hid hrep
    · rw [setWorker_of_ne t hj]
      exact hid
  · intro f hf
    rw [henters] at hf
    cases hf

theorem createServer_step (t : Tables) (kind : SockKind) (fd : ℕ) :
    t.step (.createServer kind fd) = if fd ≠ 0 ∨ t.manager.sockets ≠ [] then
      some { t with manager :=
        { sockets := (roomFor t.manager.sockets fd).set fd (some ⟨t.manager.made, kind, fd⟩)
          listenFd := some fd
          made := t.manager.made + 1 } }
      else none := by
  unfold Tables.step NetworkManager.enterServer
  dsimp only
  rw [enter_eq]
  split <;> rfl

theorem wrapSocket_step (t : Tables) (listening : Socket) (fd : ℕ) :
    t.step (.wrapSocket listening fd) = if fd ≠ 0 ∨ t.manager.sockets ≠ [] then
      some { t with manager := { t.manager with
        sockets := (roomFor t.manager.sockets fd).set fd (some ⟨t.manager.made, listening.kind, fd⟩)
        made := t.manager.made + 1 } }
      else none := by
  unfold Tables.step NetworkManager.wrapSocket
  dsimp only
  rw [enter_eq]
  split <;> rfl

theorem createConnection_step (h : TablesOK t) (i fd : ℕ) :
    t.step (.createConnection i fd) = some (t.setWorker i
      ⟨(roomFor (t.workers i).conns fd).set fd (some (t.workers i).fds.length), (t.workers i).fds ++ [fd]⟩) := by
  have hroom : fd < (roomFor (t.workers i).conns fd).length :=
    lt_roomFor_iff.mpr (Or.inr (List.length_pos_iff.mp (h i).1))
  unfold Tables.step Tables.createConnection
  dsimp only
  rw [assign_of_lt hroom]
  rfl

theorem readIo_step (t : Tables) (i fd : ℕ) : t.step (.readIo i fd) = some t := by
  unfold Tables.step Tables.readIo
  dsimp only
  split
  · rfl
  · rename_i hin
    rw [List.getElem?_eq_getElem (Nat.lt_of_not_le hin)]
    rfl

theorem writeIo_step (t : Tables) (i fd : ℕ) :
    t.step (.writeIo i fd) =
      if fd < (t.workers i).conns.length → fd < t.manager.sockets.length then some t else none := by
  unfold Tables.step Tables.writeIo
  dsimp only
  by_cases hin : fd < (t.workers i).conns.length
  · rw [if_neg (Nat.not_le_of_lt hin)]
    by_cases hsock : fd < t.manager.sockets.length
    · rw [if_pos fun _ => hsock, List.getElem?_eq_getElem hsock, Option.bind_some]
      cases t.manager.sockets[fd] with
      | none => rfl
      | some s =>
        rw [List.getElem?_eq_getElem hin]
        rfl
    · rw [if_neg fun h => hsock (h hin), List.getElem?_eq_none (Nat.le_of_not_lt hsock)]
      rfl
  · rw [if_pos (Nat.le_of_not_lt hin), if_pos fun h => absurd h hin]

theorem removeConn_step (h : TablesOK t) {i id : ℕ} (hid : (t.workers i).fds[id]? = some fd) :
    t.step (.removeConn i id) = some (t.setWorker i
      { t.workers i with conns := (t.workers i).conns.set fd none }) := by
  have hlt := (h i).2 fd (List.mem_of_getElem? hid)
  unfold Tables.step Tables.removeConn
  dsimp only
  rw [hid]
  dsimp only
  rw [assign_of_lt hlt]
  rfl

/-- The tables of the other workers stay. -/
theorem setWorker_ok (h : TablesOK t) {i : ℕ} {w : WorkerTable}
    (hw : 0 < w.conns.length ∧ ∀ fd ∈ w.fds, fd < w.conns.length) : TablesOK (t.setWorker i w) := by
  intro j
  by_cases hj : j = i
  · subst hj
    rw [setWorker_self]
    exact hw
  · rw [setWorker_of_ne t hj]
    exact h j

/-- **What a call needs is enough**: then it is in bounds and does what it should. -/
theorem served_of (h : TablesOK t) (hzero : NotZeroFirst t e) (hwrite : WritesInside t e) :
    ∃ t', Served t e t' ∧ TablesOK t' := by
  cases e with
  | createServer kind fd =>
    have hroom := hzero fd rfl
    have hstep := createServer_step t kind fd
    rw [if_pos hroom] at hstep
    exact ⟨_, enter_served hstep rfl rfl hroom, h⟩
  | wrapSocket listening fd =>
    have hroom := hzero fd rfl
    have hstep := wrapSocket_step t listening fd
    rw [if_pos hroom] at hstep
    exact ⟨_, enter_served hstep rfl rfl hroom, h⟩
  | createConnection i fd =>
    refine ⟨_, worker_served (createConnection_step h i fd) rfl ?_, setWorker_ok h ⟨?_, ?_⟩⟩
    · intro f id hid hrep
      -- the table may grow, but no other slot changes
      refine roomFor_set_keeps _ hid ?_
      rintro rfl
      exact hrep ⟨rfl, rfl⟩
    · have hle := le_length_roomFor (t.workers i).conns fd
      have hpos := (h i).1
      rw [List.length_set]
      omega
    · intro f hf
      rw [List.length_set]
      rcases List.mem_append.mp hf with hold | hnew
      · exact lt_of_lt_of_le ((h i).2 f hold) (le_length_roomFor _ fd)
      · -- a table that is not empty grows until the descriptor has a slot
        rw [List.mem_singleton.mp hnew]
        exact lt_roomFor_iff.mpr (Or.inr (List.length_pos_iff.mp (h i).1))
  | readIo i fd => exact ⟨t, same_served (readIo_step t i fd) rfl, h⟩
  | writeIo i fd =>
    have hstep := writeIo_step t i fd
    rw [if_pos (hwrite (i, fd) rfl)] at hstep
    exact ⟨t, same_served hstep rfl, h⟩
  | removeConn i id =>
    cases hid : (t.workers i).fds[id]? with
    | none =>
      have hstep : t.step (.removeConn i id) = some t := by
        unfold Tables.step Tables.removeConn
        dsimp only
        rw [hid]
      exact ⟨t, same_served hstep rfl, h⟩
    | some fd =>
      refine ⟨_, worker_served (removeConn_step h hid) rfl ?_, setWorker_ok h ⟨?_, ?_⟩⟩
      · intro f id' hid' hrep
        have hf : f ≠ fd := by
          rintro rfl
          exact hrep ⟨rfl, hid⟩
        rw [List.getElem?_set_ne hf.symm]
        exact hid'
      · rw [List.length_set]
        exact (h i).1
      · rw [List.length_set]
        exact (h i).2

/-- **A call that is in bounds had what it needs.** -/
theorem needs_of_step (hst : t.step e = some t') : NotZeroFirst t e ∧ WritesInside t e := by
  cases e with
  | createServer kind fd =>
    rw [createServer_step] at hst
    split_ifs at hst with hroom
    exact ⟨by rintro f ⟨⟩; exact hroom, by rintro p ⟨⟩⟩
  | wrapSocket listening fd =>
    rw [wrapSocket_step] at hst
    split_ifs at hst with hroom
    exact ⟨by rintro f ⟨⟩; exact hroom, by rintro p ⟨⟩⟩
  | writeIo i fd =>
    rw [writeIo_step] at hst
    split_ifs at hst with hin
    exact ⟨by rintro f ⟨⟩, by rintro p ⟨⟩; exact hin⟩
  | createConnection i fd => exact ⟨by rintro f ⟨⟩, by rintro p ⟨⟩⟩
  | readIo i fd => exact ⟨by rintro f ⟨⟩, by rintro p ⟨⟩⟩
  | removeConn i id => exact ⟨by rintro f ⟨⟩, by rintro p ⟨⟩⟩

theorem step_tables_ok (h : TablesOK t) (hst : t.step e = some t') : TablesOK t' := by
  obtain ⟨hzero, hwrite⟩ := needs_of_step hst
  obtain ⟨u, hserved, hu⟩ := served_of h hzero hwrite
  cases hst.symm.trans hserved.inBounds
  exact hu

theorem init_tables_ok : TablesOK Tables.init := by
  intro i
  refine ⟨?_, ?_⟩
  · have hlen : ((Tables.init.workers i).conns).length = INITIAL_FD_NUM := List.length_replicate
    rw [hlen]
    decide
  · intro fd hfd
    cases hfd

/-! ## Runs -/

/-- `write_io` is called for a descriptor whose socket is in the table. -/
def WritesEntered (t : Tables) (e : TableCall) : Prop :=
  ∀ p ∈ e.writes, ∃ s, t.manager.sockets[p.2]? = some (some s)

/-- **The tables are accessed in bounds.** For every run of the calls, with any descriptors and any
number of workers: each call is in bounds, loses no entry and stores its socket, exactly if
descriptor 0 is not the first to enter `_sockets` and `write_io` gets no descriptor that only
`_conns` has room for. The second condition holds for descriptors whose sockets are in the
table. -/
theorem tables_in_bounds_iff (calls : List TableCall) :
    (Along Tables.step (fun t e => ∃ t', Served t e t') Tables.init calls ↔
      Along Tables.step (fun t e => NotZeroFirst t e ∧ WritesInside t e) Tables.init calls) ∧
    (Along Tables.step WritesEntered Tables.init calls →
      (Along Tables.step (fun t e => ∃ t', Served t e t') Tables.init calls ↔
        Along Tables.step NotZeroFirst Tables.init calls)) := by
  have hiff : Along Tables.step (fun t e => ∃ t', Served t e t') Tables.init calls ↔
      Along Tables.step (fun t e => NotZeroFirst t e ∧ WritesInside t e) Tables.init calls := by
    constructor
    · refine Along.mono ?_
      rintro t e ⟨t', hserved⟩
      exact needs_of_step hserved.inBounds
    · refine Along.mono_inv (I := TablesOK) (fun t e t' ht _ hst => step_tables_ok ht hst) ?_ init_tables_ok
      rintro t e ht ⟨hzero, hwrite⟩
      obtain ⟨t', hserved, -⟩ := served_of ht hzero hwrite
      exact ⟨t', hserved⟩
  refine ⟨hiff, ?_⟩
  intro hentered
  rw [hiff]
  constructor
  · exact Along.mono fun t e h => h.1
  · intro hzero
    refine (hzero.and hentered).mono ?_
    rintro t e ⟨hz, he⟩
    refine ⟨hz, ?_⟩
    intro p hp _
    obtain ⟨s, hs⟩ := he p hp
    exact (List.getElem?_eq_some_iff.mp hs).1

/-- The server's socket gets descriptor 0, as after the standard streams were closed. -/
theorem first_socket_zero :
    Tables.step Tables.init (.createServer .tcp 0) = none ∧
      ¬ Along Tables.step (fun t e => ∃ t', Served t e t') Tables.init [.createServer .tcp 0] := by
  refine ⟨rfl, ?_⟩
  rintro ⟨⟨t', hserved⟩, -⟩
  cases hserved.inBounds

/-! ## The tables of the server -/

/-- The table of a worker. -/
def Worker.table (w : Worker) : WorkerTable := ⟨w.conns, w.objs.map Conn.fd⟩

variable {w : Worker} {i : ℕ}

/-- `create_connection` of a worker changes its table as the call does. -/
theorem createConnection_refines (h : TablesOK t) (hw : t.workers i = w.table) (sk : Socket) :
    t.step (.createConnection i sk.fd) = some (t.setWorker i (w.createConnection sk).table) := by
  have hlen : (w.objs.map Conn.fd).length = w.objs.length := List.length_map _
  rw [createConnection_step h, hw]
  unfold Worker.table Worker.createConnection
  dsimp only
  rw [List.map_append, hlen]
  cases sk.kind <;> rfl

theorem removeConn_refines (h : TablesOK t) (hw : t.workers i = w.table) {id : ℕ} {c : Conn}
    (hobj : w.objs[id]? = some c) :
    t.step (.removeConn i id) = some (t.setWorker i (w.removeConn id c).table) := by
  have hid : (t.workers i).fds[id]? = some c.fd := by
    rw [hw]
    unfold Worker.table
    rw [List.getElem?_map, hobj]
    rfl
  have hfds : (w.removeConn id c).objs.map Conn.fd = w.objs.map Conn.fd :=
    List.map_set_of_eq hobj (by cases c <;> rfl)
  rw [removeConn_step h hid, hw]
  unfold Worker.table
  rw [hfds]
  rfl

/-- `generic_accept` of the server enters its socket as the call does. -/
theorem genericAccept_refines {s : System} (hne : s.sockets ≠ []) (hs : t.manager.sockets = s.sockets)
    (hmade : t.manager.made = s.made) {listening : Socket} (hkind : listening.kind = s.serverType) :
    ∃ t', t.step (.wrapSocket listening fd) = some t' ∧ t'.manager.sockets = (s.genericAccept fd).sockets ∧
      t'.manager.made = (s.genericAccept fd).made := by
  have hstep := wrapSocket_step t listening fd
  rw [hs, hmade, hkind, if_pos (Or.inr hne)] at hstep
  exact ⟨_, hstep, rfl, rfl⟩

end Spigeon
