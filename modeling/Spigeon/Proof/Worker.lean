import Spigeon.Lib.Lts
import Spigeon.Proof.Recv
import Spigeon.Spec.Worker

/-!
# What the callbacks of a worker do to a connection

`Visited` lists what a read or write event can do to the connection it finds in the
table: leave it there, close it, or return to `tcp_read_io` with the handler's code. Handlers
that remove their connection and write events that stall are kept apart.

* `Reads`, `Writes`: the ways through a read and a write event, with the contents of the
  connection. `readIo_reads`, `writeIo_writes`: there are no others.
* `readIo_cases`, `writeIo_cases`: every read and write event is one of the visits.
* `exec_cases`: what one task of a running callback can do.
* `worker_moves`: what one event can do.
-/

namespace Spigeon

open CInt Lifetime

/-! ## Fields the callbacks keep -/

def Conn.last (c : Conn) : ℕ := c.base.lastInteraction

@[simp] theorem Conn.fd_stamp (c : Conn) (now : ℕ) : (c.stamp now).fd = c.fd := by cases c <;> rfl

@[simp] theorem Conn.last_stamp (c : Conn) (now : ℕ) : (c.stamp now).last = now := by cases c <;> rfl

@[simp] theorem Conn.fd_addReply (c : Conn) (r : Slice) : (c.addReply r).fd = c.fd := by cases c <;> rfl

@[simp] theorem Conn.last_addReply (c : Conn) (r : Slice) : (c.addReply r).last = c.last := by cases c <;> rfl

theorem runCalls_keeps (calls : List Call) : ∀ c : TCPConnection,
    (runCalls c calls).sock = c.sock ∧ (runCalls c calls).lastInteraction = c.lastInteraction := by
  induction calls with
  | nil => intro c; exact ⟨rfl, rfl⟩
  | cons k ks ih =>
    intro c
    obtain ⟨h1, h2⟩ := ih (k.run c)
    have hk : (k.run c).sock = c.sock ∧ (k.run c).lastInteraction = c.lastInteraction := by
      cases k <;> exact ⟨rfl, rfl⟩
    exact ⟨h1.trans hk.1, h2.trans hk.2⟩

theorem runUdp_keeps (calls : List Call) : ∀ c : UDPConnection,
    (calls.foldl Call.runUdp c).sock = c.sock ∧
      (calls.foldl Call.runUdp c).lastInteraction = c.lastInteraction := by
  induction calls with
  | nil => intro c; exact ⟨rfl, rfl⟩
  | cons k ks ih =>
    intro c
    obtain ⟨h1, h2⟩ := ih (k.runUdp c)
    have hk : (k.runUdp c).sock = c.sock ∧ (k.runUdp c).lastInteraction = c.lastInteraction := by
      cases k <;> exact ⟨rfl, rfl⟩
    exact ⟨h1.trans hk.1, h2.trans hk.2⟩

theorem udpRecv_shape {e : DgramEnv} {c c₁ : UDPConnection} (h : udpRecv e c = some c₁) :
    ∃ buf, c₁ = { c with ioBuffer := buf, lastInteraction := e.now } := by
  unfold udpRecv at h
  dsimp only at h
  obtain ⟨b, -, h⟩ := Option.bind_eq_some_iff.1 h
  obtain ⟨buf, -, h⟩ := Option.map_eq_some_iff.1 h
  exact ⟨buf, h.symm⟩

theorem udpRecv_keeps {e : DgramEnv} {c c₁ : UDPConnection} (h : udpRecv e c = some c₁) :
    c₁.sock = c.sock ∧ c₁.lastInteraction = e.now := by
  obtain ⟨buf, rfl⟩ := udpRecv_shape h
  exact ⟨rfl, rfl⟩

/-- A write loop takes replies from the front of the list, all of them if it drains it. -/
theorem tcpWriteLoop_shape (ks : List Sink) : ∀ c : TCPConnection, ∃ rest size written,
    (tcpWriteLoop c ks).conn = { c with replyList := rest, replyListSize := size, bytesWritten := written } ∧
      rest <:+ c.replyList ∧ ((tcpWriteLoop c ks).stop = .drained ↔ rest = []) := by
  induction ks with
  | nil =>
    intro c
    refine ⟨c.replyList, c.replyListSize, c.bytesWritten, rfl, List.suffix_rfl, ?_⟩
    rw [tcpWriteLoop]
    dsimp only
    split <;> simp_all
  | cons k ks ih =>
    intro c
    rw [tcpWriteLoop]
    cases hl : c.replyList with
    | nil =>
      have hsame : { c with replyList := [] } = c := by rw [← hl]
      exact ⟨[], c.replyListSize, c.bytesWritten, hsame.symm, List.suffix_rfl, by simp⟩
    | cons r rest =>
      dsimp only
      split
      · exact ⟨r :: rest, c.replyListSize, c.bytesWritten, by rw [← hl], List.suffix_rfl, by simp⟩
      split
      · exact ⟨r :: rest, c.replyListSize, c.bytesWritten, by rw [← hl], List.suffix_rfl, by simp⟩
      split
      · obtain ⟨rest', size, written, hconn, hsuf, hstop⟩ := ih (c.popReply rest)
        exact ⟨rest', size, written, hconn, hsuf.trans (List.suffix_cons r rest), hstop⟩
      · obtain ⟨rest', size, written, hconn, hsuf, hstop⟩ :=
          ih { c with bytesWritten := toSize (c.bytesWritten + socketWrite (sysWrite k (c.offered r))) }
        exact ⟨rest', size, written, hconn, hl ▸ hsuf, hstop⟩

theorem udpWriteLoop_shape (ks : List Sink) : ∀ c : UDPConnection, ∃ rest size,
    (udpWriteLoop c ks).conn = { c with replyList := rest, replyListSize := size } ∧ rest <:+ c.replyList ∧
      ((udpWriteLoop c ks).stop = .drained ↔ rest = []) := by
  induction ks with
  | nil =>
    intro c
    refine ⟨c.replyList, c.replyListSize, rfl, List.suffix_rfl, ?_⟩
    rw [udpWriteLoop]
    dsimp only
    split <;> simp_all
  | cons k ks ih =>
    intro c
    rw [udpWriteLoop]
    cases hl : c.replyList with
    | nil =>
      have hsame : { c with replyList := [] } = c := by rw [← hl]
      exact ⟨[], c.replyListSize, hsame.symm, List.suffix_rfl, by simp⟩
    | cons r rest =>
      dsimp only
      split
      · obtain ⟨rest', size, hconn, hsuf, hstop⟩ :=
          ih { c with replyList := rest, replyListSize := c.replyListSize - 1 }
        exact ⟨rest', size, hconn, hsuf.trans (List.suffix_cons r rest), hstop⟩
      · obtain ⟨rest', size, hconn, hsuf, hstop⟩ := ih c
        exact ⟨rest', size, hconn, hl ▸ hsuf, hstop⟩

/-- A write event that drained the list stamps the connection, every other one leaves
the stamp. -/
theorem tcpWriteIo_keeps (now : ℕ) (ks : List Sink) (c : TCPConnection) :
    (tcpWriteIo now ks c).conn.sock = c.sock ∧
      (tcpWriteIo now ks c).conn.lastInteraction =
        if (tcpWriteIo now ks c).stop = .drained then now else c.lastInteraction := by
  obtain ⟨rest, size, written, hconn, -, -⟩ := tcpWriteLoop_shape ks c
  unfold tcpWriteIo
  dsimp only
  by_cases hd : (tcpWriteLoop c ks).stop = .drained
  · rw [if_pos hd, hconn]; exact ⟨rfl, (if_pos hd).symm⟩
  · rw [if_neg hd, hconn]; exact ⟨rfl, (if_neg hd).symm⟩

theorem udpWriteIo_keeps (now : ℕ) (ks : List Sink) (c : UDPConnection) :
    (udpWriteIo now ks c).conn.sock = c.sock ∧
      (udpWriteIo now ks c).conn.lastInteraction =
        if (udpWriteIo now ks c).stop = .drained then now else c.lastInteraction := by
  obtain ⟨rest, size, hconn, -, -⟩ := udpWriteLoop_shape ks c
  unfold udpWriteIo
  dsimp only
  by_cases hd : (udpWriteLoop c ks).stop = .drained
  · rw [if_pos hd, hconn]; exact ⟨rfl, (if_pos hd).symm⟩
  · rw [if_neg hd, hconn]; exact ⟨rfl, (if_neg hd).symm⟩

theorem visit_obj {w : Worker} {id : ℕ} {c c' : Conn} (hobj : w.objs[id]? = some c) (bytes : List UInt8) :
    (w.visit id c' bytes).objs[id]? = some c' := by
  simp only [Worker.visit]
  rw [List.getElem?_set, if_pos rfl, if_pos (List.getElem?_eq_some_iff.1 hobj).1]

theorem createConnection_objs {w : Worker} (s : Socket) :
    ∃ c, (w.createConnection s).objs = w.objs ++ [c] ∧ c.fd = s.fd ∧ c.last = w.now := by
  unfold Worker.createConnection
  cases s.kind with
  | tcp => exact ⟨_, rfl, rfl, rfl⟩
  | udp => exact ⟨_, rfl, rfl, rfl⟩

/-! ## Read and write events -/

/-- A read event on the connection `id`: the read fails, the frame is not complete, or
the handler is called. -/
inductive Reads (w : Worker) (id : ℕ) (env : IoEnv) : Conn → Worker → Prop where
  | fails {c : TCPConnection} {cause : CloseCause}
      (hrecv : tcpRecv ⟨env.fill, env.stream, w.now⟩ c = some (.close cause)) :
      Reads w id env (.tcp c) ((w.visit id (.tcp c) []).closeConn id (.tcp c))
  | waits {c c₁ : TCPConnection} (hrecv : tcpRecv ⟨env.fill, env.stream, w.now⟩ c = some (.ok c₁))
      (hwait : ¬ c₁.ready = true) : Reads w id env (.tcp c) (w.visit id (.tcp c₁) (c.sysRead env.stream).bytes)
  | handled {c c₁ : TCPConnection} (hrecv : tcpRecv ⟨env.fill, env.stream, w.now⟩ c = some (.ok c₁))
      (hready : c₁.ready = true) :
      Reads w id env (.tcp c) (w.tcpProcess id c₁ (c.sysRead env.stream).bytes env.answer)
  | dgram {c c₁ : UDPConnection} (hrecv : udpRecv ⟨env.fill, env.dgram, w.now⟩ c = some c₁) :
      Reads w id env (.udp c) (w.udpProcess id c₁ env.answer)

theorem readIo_reads {w w' : Worker} {fd : ℕ} {env : IoEnv} (h : w.readIo fd env = some w') :
    (w.lookup fd = none ∧ w' = w) ∨
      ∃ id c, w.lookup fd = some id ∧ w.objs[id]? = some c ∧ Reads w id env c w' := by
  unfold Worker.readIo at h
  cases hlook : w.lookup fd with
  | none => rw [hlook] at h; exact Or.inl ⟨rfl, (Option.some.inj h).symm⟩
  | some id =>
    rw [hlook] at h
    obtain ⟨c, hobj, h⟩ := Option.bind_eq_some_iff.1 h
    refine Or.inr ⟨id, c, rfl, hobj, ?_⟩
    cases c with
    | tcp c =>
      unfold Worker.tcpReadIo at h
      obtain ⟨r, hrecv, h⟩ := Option.map_eq_some_iff.1 h
      cases r with
      | close cause => rw [← h]; exact .fails hrecv
      | ok c₁ =>
        dsimp only at h
        by_cases hready : c₁.ready = true
        · rw [if_pos hready] at h
          rw [← h]; exact .handled hrecv hready
        · rw [if_neg hready] at h
          rw [← h]; exact .waits hrecv hready
    | udp c =>
      unfold Worker.udpReadIo at h
      obtain ⟨c₁, hrecv, rfl⟩ := Option.map_eq_some_iff.1 h
      exact .dgram hrecv

/-- A write event on the connection `id`. -/
inductive Writes (w : Worker) (id : ℕ) (ks : List Sink) : Conn → Worker → Prop where
  | fails {c : TCPConnection} (hstop : (tcpWriteIo w.now ks c).stop = .failed) :
      Writes w id ks (.tcp c)
        ((w.visit id (.tcp (tcpWriteIo w.now ks c).conn) (tcpWriteIo w.now ks c).sent).closeConn id
          (.tcp (tcpWriteIo w.now ks c).conn))
  | ends {c : TCPConnection}
      (hstop : (tcpWriteIo w.now ks c).stop = .drained ∨ (tcpWriteIo w.now ks c).stop = .blocked) :
      Writes w id ks (.tcp c) (w.visit id (.tcp (tcpWriteIo w.now ks c).conn) (tcpWriteIo w.now ks c).sent)
  | dgrams {c : UDPConnection} (hstop : (udpWriteIo w.now ks c).stop ≠ .running) :
      Writes w id ks (.udp c) (w.visit id (.udp (udpWriteIo w.now ks c).conn) [])

theorem writeIo_writes {w w' : Worker} {fd : ℕ} {ks : List Sink} (h : w.writeIo fd ks = some w') :
    (w.lookup fd = none ∧ w' = w) ∨
      ∃ id c, w.lookup fd = some id ∧ w.objs[id]? = some c ∧ Writes w id ks c w' := by
  unfold Worker.writeIo at h
  cases hlook : w.lookup fd with
  | none => rw [hlook] at h; exact Or.inl ⟨rfl, (Option.some.inj h).symm⟩
  | some id =>
    rw [hlook] at h
    obtain ⟨c, hobj, h⟩ := Option.bind_eq_some_iff.1 h
    refine Or.inr ⟨id, c, rfl, hobj, ?_⟩
    cases c with
    | tcp c =>
      unfold Worker.tcpWriteIo at h
      dsimp only at h
      cases hstop : (tcpWriteIo w.now ks c).stop with
      | running => rw [hstop] at h; cases h
      | failed => rw [hstop] at h; rw [← Option.some.inj h]; exact .fails hstop
      | drained => rw [hstop] at h; rw [← Option.some.inj h]; exact .ends (Or.inl hstop)
      | blocked => rw [hstop] at h; rw [← Option.some.inj h]; exact .ends (Or.inr hstop)
    | udp c =>
      unfold Worker.udpWriteIo at h
      dsimp only at h
      split at h
      · cases h
      · rename_i hstop
        rw [← Option.some.inj h]; exact .dgrams hstop

/-- A callback worked on the connection `id`, which held `c`. Bytes only go over a
connection that is stamped, unless it is closed. -/
inductive Visited (w : Worker) (id : ℕ) (c : Conn) : Worker → Prop where
  | stay {c' : Conn} {bytes : List UInt8} (hfd : c'.fd = c.fd)
      (hlast : c'.last = w.now ∨ c'.last = c.last ∧ bytes = []) : Visited w id c (w.visit id c' bytes)
  | close {c' : Conn} {bytes : List UInt8} (hfd : c'.fd = c.fd) :
      Visited w id c ((w.visit id c' bytes).closeConn id c')
  | returns {c' : Conn} {bytes : List UInt8} (ret : ℤ) (hfd : c'.fd = c.fd)
      (hlast : c'.last = w.now) : Visited w id c ((w.visit id c' bytes).push (.returned id ret))

/-- A handler removed the connection it was called for; a TCP handler then returns to
`tcp_read_io`. -/
inductive RemovedByHandler (w : Worker) (id : ℕ) (c : Conn) : Worker → Prop where
  | tcpClose {c₁ : TCPConnection} {bytes : List UInt8} (hfd : (Conn.tcp c₁).fd = c.fd) (hc : ∃ c₀, c = .tcp c₀) :
      RemovedByHandler w id c
        (((w.visit id (.tcp c₁) bytes).push (.returned id WORKER_CONNECTION_REMOVED)).closeConn id (.tcp c₁))
  | tcpRemove {c₁ : TCPConnection} {bytes : List UInt8} (hfd : (Conn.tcp c₁).fd = c.fd) (hc : ∃ c₀, c = .tcp c₀) :
      RemovedByHandler w id c
        (((w.visit id (.tcp c₁) bytes).push (.returned id WORKER_CONNECTION_REMOVED)).removeConn id (.tcp c₁))
  | udpRemove {c₁ : UDPConnection} (hfd : (Conn.udp c₁).fd = c.fd) :
      RemovedByHandler w id c ((w.visit id (.udp c₁) []).removeConn id (.udp c₁))

/-- The handler of a TCP connection is called and removes it. -/
def HandlerRemoves (w : Worker) (fd : ℕ) (env : IoEnv) : Prop :=
  ∃ id c c₁, w.lookup fd = some id ∧ w.objs[id]? = some (.tcp c) ∧
    tcpRecv ⟨env.fill, env.stream, w.now⟩ c = some (.ok c₁) ∧ c₁.ready = true ∧ env.answer.isLeave = false

instance (w : Worker) (fd : ℕ) (env : IoEnv) : Decidable (HandlerRemoves w fd env) :=
  match hl : w.lookup fd with
  | none => isFalse fun ⟨_, _, _, h, _⟩ => by rw [hl] at h; cases h
  | some i =>
    match ho : w.objs[i]? with
    | none => isFalse fun ⟨_, _, _, h, h', _⟩ => by rw [hl] at h; cases h; rw [ho] at h'; cases h'
    | some (.udp _) => isFalse fun ⟨_, _, _, h, h', _⟩ => by rw [hl] at h; cases h; rw [ho] at h'; cases h'
    | some (.tcp c) =>
      match hr : tcpRecv ⟨env.fill, env.stream, w.now⟩ c with
      | some (.ok c₁) =>
        decidable_of_iff (c₁.ready = true ∧ env.answer.isLeave = false)
          ⟨fun h => ⟨i, c, c₁, hl, ho, hr, h⟩, fun ⟨_, _, _, h, h', h'', hh⟩ => by
            rw [hl] at h; cases h; rw [ho] at h'; cases h'; rw [hr] at h''; cases h''; exact hh⟩
      | some (.close _) => isFalse fun ⟨_, _, _, h, h', h'', _⟩ => by
          rw [hl] at h; cases h; rw [ho] at h'; cases h'; rw [hr] at h''; cases h''
      | none => isFalse fun ⟨_, _, _, h, h', h'', _⟩ => by
          rw [hl] at h; cases h; rw [ho] at h'; cases h'; rw [hr] at h''; cases h''

/-- What the handler of a TCP connection does when a frame is complete. -/
theorem tcpProcess_cases {w : Worker} {id fd : ℕ} {c c₁ : TCPConnection} {env : IoEnv} (bytes : List UInt8)
    (hlook : w.lookup fd = some id) (hobj : w.objs[id]? = some (.tcp c))
    (hrecv : tcpRecv ⟨env.fill, env.stream, w.now⟩ c = some (.ok c₁)) (hready : c₁.ready = true) :
    Visited w id (.tcp c) (w.tcpProcess id c₁ bytes env.answer) ∨
      env.answer.isLeave = false ∧ RemovedByHandler w id (.tcp c) (w.tcpProcess id c₁ bytes env.answer) ∧
        HandlerRemoves w fd env := by
  obtain ⟨buf, hshape⟩ := recv_shape hrecv
  have hfd : (Conn.tcp c₁).fd = (Conn.tcp c).fd := by rw [hshape]; rfl
  have hlast : (Conn.tcp c₁).last = w.now := by rw [hshape]; rfl
  have hremoves : env.answer.isLeave = false → HandlerRemoves w fd env :=
    fun hans => ⟨id, c, c₁, hlook, hobj, hrecv, hready, hans⟩
  cases hans : env.answer with
  | leave calls ret =>
    obtain ⟨hs, hl⟩ := runCalls_keeps calls c₁
    refine Or.inl (.returns ret (Eq.trans ?_ hfd) (Eq.trans ?_ hlast))
    · unfold Conn.fd Conn.base Connection.fd; rw [hs]
    · exact hl
  | close =>
    rw [hans] at hremoves
    exact Or.inr ⟨rfl, .tcpClose hfd ⟨c, rfl⟩, hremoves rfl⟩
  | remove =>
    rw [hans] at hremoves
    exact Or.inr ⟨rfl, .tcpRemove hfd ⟨c, rfl⟩, hremoves rfl⟩

theorem udpProcess_cases {w : Worker} {id : ℕ} {c c₁ : UDPConnection} {e : DgramEnv} {answer : Answer}
    (hrecv : udpRecv e c = some c₁) (hnow : e.now = w.now) :
    Visited w id (.udp c) (w.udpProcess id c₁ answer) ∨
      answer.isLeave = false ∧ RemovedByHandler w id (.udp c) (w.udpProcess id c₁ answer) := by
  obtain ⟨hs₁, hl₁⟩ := udpRecv_keeps hrecv
  have hfd : (Conn.udp c₁).fd = (Conn.udp c).fd := by unfold Conn.fd Conn.base Connection.fd; rw [hs₁]
  cases answer with
  | leave calls ret =>
    obtain ⟨hs, hl⟩ := runUdp_keeps calls c₁
    refine Or.inl (.stay (Eq.trans ?_ hfd) (Or.inl ((hl.trans hl₁).trans hnow)))
    unfold Conn.fd Conn.base Connection.fd; rw [hs]
  | close => exact Or.inl (.close hfd)
  | remove => exact Or.inr ⟨rfl, .udpRemove hfd⟩

theorem readIo_cases {w w' : Worker} {fd : ℕ} {env : IoEnv} (h : w.readIo fd env = some w') :
    w' = w ∨ ∃ id c, w.lookup fd = some id ∧ w.objs[id]? = some c ∧
      (Visited w id c w' ∨
        env.answer.isLeave = false ∧ RemovedByHandler w id c w' ∧
          ((∃ c₀, c = .tcp c₀) → HandlerRemoves w fd env)) := by
  rcases readIo_reads h with ⟨-, h⟩ | ⟨id, c, hlook, hobj, hr⟩
  · exact Or.inl h
  refine Or.inr ⟨id, c, hlook, hobj, ?_⟩
  cases hr with
  | fails hrecv => exact Or.inl (.close rfl)
  | waits hrecv hwait =>
    obtain ⟨buf, rfl⟩ := recv_shape hrecv
    exact Or.inl (.stay rfl (Or.inl rfl))
  | handled hrecv hready =>
    rcases tcpProcess_cases _ hlook hobj hrecv hready with hv | ⟨hans, hrem, hremoves⟩
    · exact Or.inl hv
    · exact Or.inr ⟨hans, hrem, fun _ => hremoves⟩
  | dgram hrecv =>
    rcases udpProcess_cases hrecv rfl with hv | ⟨hans, hrem⟩
    · exact Or.inl hv
    · refine Or.inr ⟨hans, hrem, ?_⟩
      rintro ⟨c₀, hc₀⟩
      cases hc₀

/-- A write event moved bytes and was stopped by a write that would block. -/
def Stalls (w : Worker) (fd : ℕ) (ks : List Sink) : Prop :=
  ∃ id c, w.lookup fd = some id ∧ w.objs[id]? = some (.tcp c) ∧
    (tcpWriteIo w.now ks c).stop = .blocked ∧ (tcpWriteIo w.now ks c).sent ≠ []

instance (w : Worker) (fd : ℕ) (ks : List Sink) : Decidable (Stalls w fd ks) :=
  match hl : w.lookup fd with
  | none => isFalse fun ⟨_, _, h, _⟩ => by rw [hl] at h; cases h
  | some i =>
    match ho : w.objs[i]? with
    | none => isFalse fun ⟨_, _, h, h', _⟩ => by rw [hl] at h; cases h; rw [ho] at h'; cases h'
    | some (.udp _) => isFalse fun ⟨_, _, h, h', _⟩ => by rw [hl] at h; cases h; rw [ho] at h'; cases h'
    | some (.tcp c) =>
      decidable_of_iff ((tcpWriteIo w.now ks c).stop = .blocked ∧ (tcpWriteIo w.now ks c).sent ≠ [])
        ⟨fun h => ⟨i, c, hl, ho, h⟩, fun ⟨_, _, h, h', hh⟩ => by
          rw [hl] at h; cases h; rw [ho] at h'; cases h'; exact hh⟩

theorem writeIo_cases {w w' : Worker} {fd : ℕ} {ks : List Sink} (h : w.writeIo fd ks = some w') :
    w' = w ∨ ∃ id c, w.lookup fd = some id ∧ w.objs[id]? = some c ∧
      (Visited w id c w' ∨
        Stalls w fd ks ∧ ∃ c' bytes, c'.fd = c.fd ∧ c'.last = c.last ∧ w' = w.visit id c' bytes) := by
  rcases writeIo_writes h with ⟨-, h⟩ | ⟨id, c, hlook, hobj, hw⟩
  · exact Or.inl h
  refine Or.inr ⟨id, c, hlook, hobj, ?_⟩
  -- the socket stays the same
  have hfd : ∀ {b b' : Connection}, b'.sock = b.sock → b'.fd = b.fd := fun h => by unfold Connection.fd; rw [h]
  cases hw with
  | fails hstop => exact Or.inl (.close (hfd (tcpWriteIo_keeps w.now ks _).1))
  | ends hstop =>
    rename_i c
    obtain ⟨hs, hl⟩ := tcpWriteIo_keeps w.now ks c
    rcases hstop with hstop | hstop
    · rw [hstop, if_pos rfl] at hl
      exact Or.inl (.stay (hfd hs) (Or.inl hl))
    · rw [hstop, if_neg (by decide)] at hl
      by_cases hsent : (tcpWriteIo w.now ks c).sent = []
      · exact Or.inl (.stay (hfd hs) (Or.inr ⟨hl, hsent⟩))
      · exact Or.inr ⟨⟨id, c, hlook, hobj, hstop, hsent⟩, .tcp (tcpWriteIo w.now ks c).conn, _, hfd hs, hl, rfl⟩
  | dgrams hstop =>
    rename_i c
    obtain ⟨hs, hl⟩ := udpWriteIo_keeps w.now ks c
    refine Or.inl (.stay (hfd hs) ?_)
    split at hl
    · exact Or.inl hl
    · exact Or.inr ⟨hl, rfl⟩

/-! ## Tasks -/

/-- The event runs a task with the property. -/
def Runs (P : Worker → Task → Prop) (w : Worker) (e : WorkerEvent) : Prop :=
  e.isNext = true ∧ ∃ t ∈ w.todo.take 1, P w t

instance {P : Worker → Task → Prop} [∀ w t, Decidable (P w t)] (w : Worker) (e : WorkerEvent) :
    Decidable (Runs P w e) := inferInstanceAs (Decidable (_ ∧ _))

theorem runs_next {P : Worker → Task → Prop} {w : Worker} {t : Task} {ts : List Task} (htodo : w.todo = t :: ts)
    (h : P w t) : Runs P w .next := by
  refine ⟨rfl, t, ?_, h⟩
  rw [htodo]; exact List.mem_cons_self

/-- What a task can do to the connection it finds. -/
inductive Found (w : Worker) (t : Task) (fd id : ℕ) (c : Conn) (w' : Worker) : Prop where
  | visited (h : Visited w id c w')
  | slot (h : w' = w.closeConn id c)
  | handler {env : IoEnv} (ht : t = .readIo fd env) (ha : env.answer.isLeave = false)
      (h : RemovedByHandler w id c w') (htcp : (∃ c₀, c = .tcp c₀) → HandlerRemoves w fd env)
  | stalled {ks : List Sink} (ht : t = .writeIo fd ks) (hs : Stalls w fd ks) {c' : Conn} {bytes : List UInt8}
      (hfd : c'.fd = c.fd) (hlast : c'.last = c.last) (h : w' = w.visit id c' bytes)

theorem exec_cases {w w' : Worker} {t : Task} (h : w.exec t = some w') :
    w' = w ∨ (∃ id fd, t = .close id fd ∧ w' = w.act (.shut id)) ∨
      (∃ id ret c, t = .returned id ret ∧ w.objs[id]? = some c ∧ w' = w.closeConn id c) ∨
      ∃ fd id c, w.lookup fd = some id ∧ w.objs[id]? = some c ∧ Found w t fd id c w' := by
  cases t with
  | readIo fd env =>
    rcases readIo_cases h with h | ⟨id, c, hlook, hobj, hv | ⟨ha, hrem, htcp⟩⟩
    · exact Or.inl h
    · exact Or.inr (Or.inr (Or.inr ⟨fd, id, c, hlook, hobj, .visited hv⟩))
    · exact Or.inr (Or.inr (Or.inr ⟨fd, id, c, hlook, hobj, .handler rfl ha hrem htcp⟩))
  | writeIo fd ks =>
    rcases writeIo_cases h with h | ⟨id, c, hlook, hobj, hv | ⟨hs, c', bytes, hfd, hlast, h⟩⟩
    · exact Or.inl h
    · exact Or.inr (Or.inr (Or.inr ⟨fd, id, c, hlook, hobj, .visited hv⟩))
    · exact Or.inr (Or.inr (Or.inr ⟨fd, id, c, hlook, hobj, .stalled rfl hs hfd hlast h⟩))
  | returned id ret =>
    simp only [Worker.exec] at h
    split at h
    · obtain ⟨c, hobj, h⟩ := Option.map_eq_some_iff.1 h
      exact Or.inr (Or.inr (Or.inl ⟨id, ret, c, rfl, hobj, h.symm⟩))
    · exact Or.inl (Option.some.inj h).symm
  | close id fd => exact Or.inr (Or.inl ⟨id, fd, rfl, (Option.some.inj h).symm⟩)
  | closeSlot fd =>
    simp only [Worker.exec] at h
    cases hlook : w.lookup fd with
    | none => rw [hlook] at h; exact Or.inl (Option.some.inj h).symm
    | some id =>
      rw [hlook] at h
      obtain ⟨c, hobj, h⟩ := Option.map_eq_some_iff.1 h
      exact Or.inr (Or.inr (Or.inr ⟨fd, id, c, hlook, hobj, .slot h.symm⟩))

/-! ## Events -/

/-- What one event does to a worker: the next task, or a new callback when the last one
is done. -/
inductive WorkerMoves (w : Worker) : WorkerEvent → Worker → Prop where
  | next {t : Task} {ts : List Task} {w' : Worker} (htodo : w.todo = t :: ts)
      (hexec : Worker.exec { w with todo := ts } t = some w') : WorkerMoves w .next w'
  | clock {now : ℕ} (hidle : w.todo = []) : WorkerMoves w (.clock now) { w with now := now }
  | create {s : Socket} (hidle : w.todo = []) : WorkerMoves w (.create s) (w.createConnection s)
  | io {id : ℕ} {rd wr : Bool} {env : IoEnv} {ks : List Sink} {ts : List Task} (hidle : w.todo = [])
      (hts : ∀ t ∈ ts, (∃ fd, t = .readIo fd env) ∨ ∃ fd, t = .writeIo fd ks) :
      WorkerMoves w (.io id rd wr env ks) { w with todo := ts }
  | timer {id : ℕ} {c : Conn} (hidle : w.todo = []) (hid : id ∈ w.watched) (hobj : w.objs[id]? = some c) :
      WorkerMoves w (.timer id) (w.processTimeout id c)
  | reply {id : ℕ} {r : Slice} {c : Conn} (hidle : w.todo = []) (hid : id ∈ w.watched)
      (hobj : w.objs[id]? = some c) : WorkerMoves w (.reply id r) (w.visit id (c.addReply r) [])
  | stop {ts : List Task} (hidle : w.todo = []) (hts : ∀ t ∈ ts, ∃ fd, t = .closeSlot fd) :
      WorkerMoves w .stop { w with todo := ts }

/-- **Every event is one of the moves.** -/
theorem worker_moves {w w' : Worker} {e : WorkerEvent} (h : w.step e = some w') : WorkerMoves w e w' := by
  cases e with
  | next =>
    cases htodo : w.todo with
    | nil => simp only [Worker.step, htodo] at h; cases h
    | cons t ts => simp only [Worker.step, htodo] at h; exact .next htodo h
  | clock now =>
    simp only [Worker.step] at h
    split at h
    · rename_i hnil
      rw [← Option.some.inj h]; exact .clock (List.isEmpty_iff.1 hnil)
    · cases h
  | create s =>
    simp only [Worker.step] at h
    split at h
    · rename_i hnil
      rw [← Option.some.inj h]; exact .create (List.isEmpty_iff.1 hnil)
    · cases h
  | io id rd wr env ks =>
    simp only [Worker.step] at h
    split at h
    · rename_i hg
      obtain ⟨c, -, rfl⟩ := Option.map_eq_some_iff.1 h
      refine .io (List.isEmpty_iff.1 hg.1) ?_
      intro t ht
      rcases List.mem_append.1 ht with ht | ht
      · split at ht
        · exact Or.inl ⟨_, List.mem_singleton.1 ht⟩
        · cases ht
      · split at ht
        · exact Or.inr ⟨_, List.mem_singleton.1 ht⟩
        · cases ht
    · cases h
  | timer id =>
    simp only [Worker.step] at h
    split at h
    · rename_i hg
      obtain ⟨c, hobj, rfl⟩ := Option.map_eq_some_iff.1 h
      exact .timer (List.isEmpty_iff.1 hg.1) hg.2 hobj
    · cases h
  | reply id r =>
    simp only [Worker.step] at h
    split at h
    · rename_i hg
      obtain ⟨c, hobj, rfl⟩ := Option.map_eq_some_iff.1 h
      exact .reply (List.isEmpty_iff.1 hg.1) hg.2 hobj
    · cases h
  | stop =>
    simp only [Worker.step] at h
    split at h
    · rename_i hnil
      rw [← Option.some.inj h]
      refine .stop (List.isEmpty_iff.1 hnil) ?_
      intro t ht
      obtain ⟨fd, -, rfl⟩ := List.mem_map.1 ht
      exact ⟨fd, rfl⟩
    · cases h

end Spigeon
