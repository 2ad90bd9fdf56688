import Spigeon.Lib.Lists
import Spigeon.Proof.Worker
import Spigeon.Spec.System

/-!
# What a worker does to the contents of its connections

* `Edits`: the ways in which one event can change one connection, as applications of the
  functions of `Spigeon.Spec.Io`.
* `step_edits`: every connection after an event is a new one or an edited one.
* `edits_sock`: a connection keeps its socket.
* `step_steady`: an event removes a connection, or it starts no `close`.
-/

namespace Spigeon

open Lifetime

/-- The connection that `create_connection` makes for a socket. -/
def Conn.start (s : Socket) (now : ℕ) (sslOpen : Bool) : Conn :=
  match s.kind with
  | .tcp => .tcp (TCPConnection.start s now sslOpen)
  | .udp => .udp (UDPConnection.start s now sslOpen)

/-- The event runs the task, and `_conns[fd]` is the connection `id`. -/
structure Finds (w : Worker) (e : WorkerEvent) (t : Task) (fd id : ℕ) : Prop where
  next : e = .next
  todo : w.todo.head? = some t
  found : w.lookup fd = some id

/-- What the event can make of the connection `id`. -/
inductive Edits (w : Worker) (e : WorkerEvent) (id : ℕ) : Conn → Conn → Prop where
  | same (c : Conn) : Edits w e id c c
  /-- `remove_conn` stamps what it frees -/
  | stamp {c c' : Conn} (h : Edits w e id c c') : Edits w e id c (c'.stamp w.now)
  | reply {c : Conn} {r : Slice} (he : e = .reply id r) : Edits w e id c (c.addReply r)
  | recv {fd : ℕ} {env : IoEnv} {c c₁ : TCPConnection} (hf : Finds w e (.readIo fd env) fd id)
      (hrecv : tcpRecv ⟨env.fill, env.stream, w.now⟩ c = some (.ok c₁)) : Edits w e id (.tcp c) (.tcp c₁)
  | handled {fd : ℕ} {env : IoEnv} {c c₁ : TCPConnection} {calls : List Call} {ret : ℤ}
      (hf : Finds w e (.readIo fd env) fd id)
      (hrecv : tcpRecv ⟨env.fill, env.stream, w.now⟩ c = some (.ok c₁)) (hready : c₁.ready = true)
      (hans : env.answer = .leave calls ret) : Edits w e id (.tcp c) (.tcp (runCalls c₁ calls))
  | dgram {fd : ℕ} {env : IoEnv} {c c₁ : UDPConnection} (hf : Finds w e (.readIo fd env) fd id)
      (hrecv : udpRecv ⟨env.fill, env.dgram, w.now⟩ c = some c₁) : Edits w e id (.udp c) (.udp c₁)
  | dgramHandled {fd : ℕ} {env : IoEnv} {c c₁ : UDPConnection} {calls : List Call} {ret : ℤ}
      (hf : Finds w e (.readIo fd env) fd id)
      (hrecv : udpRecv ⟨env.fill, env.dgram, w.now⟩ c = some c₁) (hans : env.answer = .leave calls ret) :
      Edits w e id (.udp c) (.udp (calls.foldl Call.runUdp c₁))
  | write {fd : ℕ} {ks : List Sink} {c : TCPConnection} (hf : Finds w e (.writeIo fd ks) fd id) :
      Edits w e id (.tcp c) (.tcp (tcpWriteIo w.now ks c).conn)
  | dgramWrite {fd : ℕ} {ks : List Sink} {c : UDPConnection} (hf : Finds w e (.writeIo fd ks) fd id)
      (hstop : (udpWriteIo w.now ks c).stop ≠ .running) :
      Edits w e id (.udp c) (.udp (udpWriteIo w.now ks c).conn)

/-- The connections of `w'` are those of `w`, edited. -/
def Edited (w : Worker) (e : WorkerEvent) (objs : List Conn) : Prop :=
  ∀ i c', objs[i]? = some c' → ∃ c, w.objs[i]? = some c ∧ Edits w e i c c'

variable {w w' : Worker} {e : WorkerEvent} {id fd : ℕ} {c c' : Conn}

theorem Edited.refl : Edited w e w.objs := fun _ c' h => ⟨c', h, .same c'⟩

theorem Edited.set (hobj : w.objs[id]? = some c) (h : Edits w e id c c') : Edited w e (w.objs.set id c') := by
  intro i c₀ hc₀
  rcases List.set_cases hc₀ with ⟨rfl, rfl⟩ | ⟨-, hc₀⟩
  · exact ⟨c, hobj, h⟩
  · exact ⟨c₀, hc₀, .same c₀⟩

/-- The edit before a removal. -/
theorem Edited.set_stamp (hobj : w.objs[id]? = some c) (h : Edits w e id c c') :
    Edited w e ((w.objs.set id c').set id (c'.stamp w.now)) := by
  rw [List.set_set]
  exact .set hobj (.stamp h)

theorem reads_edited {env : IoEnv} {ts : List Task} (hf : Finds w e (.readIo fd env) fd id)
    (hobj : w.objs[id]? = some c) (hr : Reads { w with todo := ts } id env c w') : Edited w e w'.objs := by
  cases hr with
  | fails hrecv => exact .set_stamp hobj (.same _)
  | waits hrecv hwait => exact .set hobj (.recv hf hrecv)
  | handled hrecv hready =>
    cases hans : env.answer with
    | leave calls ret => exact .set hobj (.handled hf hrecv hready hans)
    | close => exact .set_stamp hobj (.recv hf hrecv)
    | remove => exact .set_stamp hobj (.recv hf hrecv)
  | dgram hrecv =>
    cases hans : env.answer with
    | leave calls ret => exact .set hobj (.dgramHandled hf hrecv hans)
    | close => exact .set_stamp hobj (.dgram hf hrecv)
    | remove => exact .set_stamp hobj (.dgram hf hrecv)

theorem writes_edited {ks : List Sink} {ts : List Task} (hf : Finds w e (.writeIo fd ks) fd id)
    (hobj : w.objs[id]? = some c) (hw : Writes { w with todo := ts } id ks c w') : Edited w e w'.objs := by
  cases hw with
  | fails hstop => exact .set_stamp hobj (.write hf)
  | ends hstop => exact .set hobj (.write hf)
  | dgrams hstop => exact .set hobj (.dgramWrite hf hstop)

/-- The next task of the running callback. -/
theorem exec_edited {t : Task} {ts : List Task} (htodo : w.todo = t :: ts)
    (h : Worker.exec { w with todo := ts } t = some w') : Edited w .next w'.objs := by
  have hhead : w.todo.head? = some t := by rw [htodo]; rfl
  cases t with
  | readIo fd env =>
    rcases readIo_reads h with ⟨-, rfl⟩ | ⟨i, c, hlook, hobj, hr⟩
    · exact .refl
    · exact reads_edited ⟨rfl, hhead, hlook⟩ hobj hr
  | writeIo fd ks =>
    rcases writeIo_writes h with ⟨-, rfl⟩ | ⟨i, c, hlook, hobj, hw⟩
    · exact .refl
    · exact writes_edited ⟨rfl, hhead, hlook⟩ hobj hw
  | returned i ret =>
    simp only [Worker.exec] at h
    split at h
    · obtain ⟨c, hobj, rfl⟩ := Option.map_eq_some_iff.1 h
      exact .set hobj (.stamp (.same c))
    · rw [← Option.some.inj h]; exact .refl
  | close i fd => rw [← Option.some.inj h]; exact .refl
  | closeSlot fd =>
    simp only [Worker.exec] at h
    split at h
    · rw [← Option.some.inj h]; exact .refl
    · obtain ⟨c, hobj, rfl⟩ := Option.map_eq_some_iff.1 h
      exact .set hobj (.stamp (.same c))

/-- **Every connection after an event is a new one or an edited one.** -/
theorem step_edits (h : w.step e = some w') {i : ℕ} (hobj : w'.objs[i]? = some c') :
    (∃ c, w.objs[i]? = some c ∧ Edits w e i c c') ∨
      ∃ s, e = .create s ∧ i = w.objs.length ∧ c' = Conn.start s w.now w.sslOpen := by
  have hmove := worker_moves h
  cases hmove with
  | next htodo hexec => exact Or.inl (exec_edited htodo hexec i c' hobj)
  | clock _ => exact Or.inl (Edited.refl i c' hobj)
  | @create s _ =>
    have hobjs : (w.createConnection s).objs = w.objs ++ [Conn.start s w.now w.sslOpen] := by
      unfold Worker.createConnection Conn.start
      cases s.kind <;> rfl
    rw [hobjs] at hobj
    rcases List.concat_cases hobj with hobj | ⟨hi, hc'⟩
    · exact Or.inl ⟨c', hobj, .same c'⟩
    · exact Or.inr ⟨s, rfl, hi, hc'⟩
  | io _ _ => exact Or.inl (Edited.refl i c' hobj)
  | timer _ _ hobj₀ =>
    left
    unfold Worker.processTimeout at hobj
    dsimp only at hobj
    split at hobj
    · exact Edited.set_stamp hobj₀ (.same _) i c' hobj
    · exact Edited.set hobj₀ (.same _) i c' hobj
  | reply _ _ hobj₀ => exact Or.inl (Edited.set hobj₀ (.reply rfl) i c' hobj)
  | stop _ _ => exact Or.inl (Edited.refl i c' hobj)

/-- A connection keeps its socket. -/
theorem edits_sock (h : Edits w e id c c') : c'.base.sock = c.base.sock := by
  induction h with
  | same c => rfl
  | @stamp c c' h ih => cases c' <;> exact ih
  | @reply c r he => cases c <;> rfl
  | recv hf hrecv =>
    obtain ⟨buf, rfl⟩ := recv_shape hrecv
    rfl
  | @handled fd env c c₁ calls ret hf hrecv hready hans =>
    obtain ⟨buf, rfl⟩ := recv_shape hrecv
    exact (runCalls_keeps calls _).1
  | dgram hf hrecv =>
    obtain ⟨buf, rfl⟩ := udpRecv_shape hrecv
    rfl
  | @dgramHandled fd env c c₁ calls ret hf hrecv hans =>
    obtain ⟨buf, rfl⟩ := udpRecv_shape hrecv
    exact (runUdp_keeps calls _).1
  | @write fd ks c hf => exact (tcpWriteIo_keeps w.now ks c).1
  | @dgramWrite fd ks c hf hstop => exact (udpWriteIo_keeps w.now ks c).1

theorem start_sock (s : Socket) (now : ℕ) (sslOpen : Bool) : (Conn.start s now sslOpen).base.sock = s := by
  unfold Conn.start
  cases s.kind <;> rfl

/-! ## Removals -/

/-- The step from `w` to `w'` removes no connection and leaves no new `close` to do. -/
structure Steady (w w' : Worker) : Prop where
  acts : ∃ news, w'.acts = w.acts ++ news ∧ ∀ id, Act.drop id ∉ news
  todo : ∀ t ∈ w'.todo, t.closeFd ≠ none → t ∈ w.todo

/-- The step from `w` to `w'` removes the connection `id`. -/
def Drops (w w' : Worker) (id : ℕ) : Prop :=
  (∃ news, w'.acts = w.acts ++ news ∧ Act.drop id ∈ news) ∧ ∃ c, w'.objs[id]? = some c

theorem Steady.refl (w : Worker) : Steady w w :=
  ⟨⟨[], (List.append_nil _).symm, fun id hid => by cases hid⟩, fun t ht _ => ht⟩

theorem visit_steady (w : Worker) (id : ℕ) (c : Conn) (bytes : List UInt8) : Steady w (w.visit id c bytes) :=
  ⟨⟨[.use id], rfl, fun i hi => by simp at hi⟩, fun t ht _ => ht⟩

theorem close_drops (hobj : w.objs[id]? = some c) (c' : Conn) : Drops w (w.closeConn id c') id := by
  refine ⟨⟨[.use id, .drop id], List.append_assoc _ _ _, by simp⟩, c'.stamp w.now, ?_⟩
  exact List.getElem?_set_self (List.getElem?_eq_some_iff.1 hobj).1

theorem visit_close_drops (hobj : w.objs[id]? = some c) (c' : Conn) (bytes : List UInt8) :
    Drops w ((w.visit id c' bytes).closeConn id c') id := by
  have hvisited : (w.visit id c' bytes).objs[id]? = some c' := visit_obj hobj bytes
  obtain ⟨⟨news, hnews, hdrop⟩, hc⟩ := close_drops hvisited c'
  refine ⟨⟨[.use id] ++ news, ?_, List.mem_append_right _ hdrop⟩, hc⟩
  rw [hnews, ← List.append_assoc]
  rfl

/-- What a task does to a connection it finds. -/
theorem found_steady {t : Task} (hobj : w.objs[id]? = some c) (hf : Found w t fd id c w') :
    Steady w w' ∨ Drops w w' id := by
  cases hf with
  | visited hv =>
    cases hv with
    | stay hfd hlast => exact Or.inl (visit_steady w id _ _)
    | close hfd => exact Or.inr (visit_close_drops hobj _ _)
    | @returns c' bytes ret hfd hlast =>
      left
      refine ⟨(visit_steady w id c' bytes).acts, ?_⟩
      intro t ht hclose
      rcases List.mem_cons.1 ht with rfl | ht
      · exact absurd rfl hclose
      · exact ht
  | slot h => rw [h]; exact Or.inr (close_drops hobj c)
  | handler ht ha h htcp =>
    right
    cases h with
    | @tcpClose c₁ bytes hfd hc => exact visit_close_drops hobj (.tcp c₁) bytes
    | @tcpRemove c₁ bytes hfd hc =>
      refine ⟨⟨[.use id, .drop id], List.append_assoc _ _ _, by simp⟩, _, List.getElem?_set_self ?_⟩
      rw [show ((w.visit id (.tcp c₁) bytes).push _).objs.length = w.objs.length from List.length_set ..]
      exact (List.getElem?_eq_some_iff.1 hobj).1
    | @udpRemove c₁ hfd =>
      refine ⟨⟨[.use id, .drop id], List.append_assoc _ _ _, by simp⟩, _, List.getElem?_set_self ?_⟩
      rw [show (w.visit id (.udp c₁) []).objs.length = w.objs.length from List.length_set ..]
      exact (List.getElem?_eq_some_iff.1 hobj).1
  | stalled ht hs hfd hlast h => rw [h]; exact Or.inl (visit_steady w id _ _)

/-- `create_connection` and `stop` remove nothing by themselves. -/
theorem start_steady (h : w.step e = some w') (he : e.own = false) : Steady w w' := by
  cases worker_moves h with
  | create _ => exact ⟨(Steady.refl w).acts, (Steady.refl w).todo⟩
  | stop _ hts =>
    refine ⟨(Steady.refl w).acts, ?_⟩
    intro t ht hclose
    obtain ⟨fd, rfl⟩ := hts t ht
    exact absurd rfl hclose
  | _ => cases he

/-- **An event removes a connection, or it starts no `close`.** -/
theorem step_steady (h : w.step e = some w') : Steady w w' ∨ ∃ id, Drops w w' id := by
  cases worker_moves h with
  | @next t ts w' htodo hexec =>
    -- what a task adds to the rest of the callback, it adds to the callback
    have hpop : ∀ {v}, Steady { w with todo := ts } v → Steady w v := fun hv =>
      ⟨hv.acts, fun t ht hclose => htodo ▸ List.mem_cons_of_mem _ (hv.todo t ht hclose)⟩
    rcases exec_cases hexec with rfl | ⟨i, fd, -, rfl⟩ | ⟨i, ret, c, -, hobj, rfl⟩ | ⟨fd, i, c, -, hobj, hf⟩
    · exact Or.inl (hpop (Steady.refl _))
    · exact Or.inl (hpop ⟨⟨[.shut i], rfl, fun j hj => by simp at hj⟩, fun t ht _ => ht⟩)
    · exact Or.inr ⟨i, close_drops (w := { w with todo := ts }) hobj c⟩
    · rcases found_steady hobj hf with hs | hd
      · exact Or.inl (hpop hs)
      · exact Or.inr ⟨i, hd⟩
  | clock _ => exact Or.inl ⟨(Steady.refl w).acts, (Steady.refl w).todo⟩
  | create _ => exact Or.inl (start_steady h rfl)
  | io _ hts =>
    refine Or.inl ⟨(Steady.refl w).acts, ?_⟩
    intro t ht hclose
    rcases hts t ht with ⟨fd, rfl⟩ | ⟨fd, rfl⟩ <;> exact absurd rfl hclose
  | @timer id c _ _ hobj =>
    unfold Worker.processTimeout
    dsimp only
    split
    · exact Or.inr ⟨id, visit_close_drops hobj c []⟩
    · exact Or.inl (visit_steady w id c [])
  | reply _ _ hobj => exact Or.inl (visit_steady w _ _ [])
  | stop _ hts => exact Or.inl (start_steady h rfl)

end Spigeon
