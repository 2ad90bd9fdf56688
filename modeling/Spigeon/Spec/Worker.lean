import Spigeon.Lib.Lifetime
import Spigeon.Spec.Input

/-!
# A worker

`server/worker.cpp`. A worker is a thread with an event loop; the model runs its
callbacks task by task, so that other threads can act between two tasks: a callback puts
its calls on `todo`, and `close_conn` is `remove_conn` followed by a task for
`close(fd)`.

`Connection` objects are numbered in the order of `create_connection`. A removed object
keeps its contents, as freed memory does until it is used again, so that the accesses
made after a removal show in the record `acts`. The record `times` notes transfers of
bytes on TCP connections and the decisions of `process_timeout`. Both records only serve
the statements.

The test of `write_io` for a non-NULL `sockets[fd]` is not modelled: `wrap_socket` enters
every socket before it gets to a worker and no code resets the entry.
-/

namespace Spigeon

open CInt Lifetime

/-- A `Connection` of either kind. -/
inductive Conn where
  | tcp (c : TCPConnection)
  | udp (c : UDPConnection)
deriving DecidableEq, Repr

namespace Conn

def base : Conn → Connection
  | .tcp c => c.toConnection
  | .udp c => c.toConnection

def withBase (b : Connection) : Conn → Conn
  | .tcp c => .tcp { c with toConnection := b }
  | .udp c => .udp { c with toConnection := b }

def fd (c : Conn) : ℕ := c.base.fd

/-- `c->_last_interaction = _el->now()`. -/
def stamp (c : Conn) (now : ℕ) : Conn := c.withBase { c.base with lastInteraction := now }

/-- `add_reply`. -/
def addReply (c : Conn) (r : Slice) : Conn := c.withBase (c.base.addReply r)

end Conn

def UDPConnection.start (s : Socket) (now : ℕ) (sslOpen : Bool) : UDPConnection :=
  ⟨(Connection.new s).start now sslOpen⟩

/-- What `process_io_buffer` does with its connection. -/
inductive Answer where
  /-- it makes some calls and returns a code -/
  | leave (calls : List Call) (ret : ℤ)
  /-- it calls `close_conn` and returns `WORKER_CONNECTION_REMOVED` -/
  | close
  /-- it calls `remove_conn` and returns `WORKER_CONNECTION_REMOVED` -/
  | remove
deriving DecidableEq, Repr

def Answer.isLeave : Answer → Bool
  | .leave _ _ => true
  | .close => false
  | .remove => false

/-- The framing calls belong to `TCPConnection`. -/
def Call.runUdp (c : UDPConnection) : Call → UDPConnection
  | .addReply r => { c with toConnection := c.toConnection.addReply r }
  | _ => c

/-- What a read event meets: fresh memory, the socket, and the handler if it is called. -/
structure IoEnv where
  fill : ℕ → UInt8
  stream : StreamSrc
  dgram : DgramSrc
  answer : Answer

/-- What is left to do in the running callback. -/
inductive Task where
  | readIo (fd : ℕ) (env : IoEnv)
  | writeIo (fd : ℕ) (answers : List Sink)
  /-- the handler has returned to `tcp_read_io` -/
  | returned (id : ℕ) (ret : ℤ)
  /-- the `close(fd)` of `close_conn` -/
  | close (id fd : ℕ)
  /-- one iteration of the loop in `stop` and `close_all_conns` -/
  | closeSlot (fd : ℕ)

/-- A transfer on a TCP connection, or its closing by the timer, with the time. -/
inductive Timed where
  | transfer (id now : ℕ)
  | expire (id now : ℕ)
deriving DecidableEq, Repr

structure Worker where
  connectionTimeout : ℕ
  sslOpen : Bool
  now : ℕ
  conns : List (Option ℕ)
  objs : List Conn
  /-- the connections whose io watcher and timer exist -/
  watched : List ℕ
  todo : List Task
  acts : List (Act ℕ)
  times : List Timed

def INITIAL_FD_NUM : ℕ := 1024

/-- `std::vector::resize(n, NULL)`. -/
def resize {α : Type} (l : List (Option α)) (n : ℕ) : List (Option α) :=
  l.take n ++ List.replicate (n - l.length) none

/-- A table with an entry for `fd`: `if (fd >= v.size()) v.resize(fd*2, NULL)`. -/
def roomFor {α : Type} (l : List (Option α)) (fd : ℕ) : List (Option α) :=
  if l.length ≤ fd then resize l (fd * 2) else l

namespace Worker

def init (connectionTimeout : ℕ) (sslOpen : Bool) (now : ℕ) : Worker :=
  ⟨connectionTimeout, sslOpen, now, List.replicate INITIAL_FD_NUM none, [], [], [], [], []⟩

def act (w : Worker) (a : Act ℕ) : Worker := { w with acts := w.acts ++ [a] }

def push (w : Worker) (t : Task) : Worker := { w with todo := t :: w.todo }

/-- A callback has worked on a connection: what the object holds now, and the bytes
that went over it. -/
def visit (w : Worker) (id : ℕ) (c : Conn) (bytes : List UInt8) : Worker :=
  { w with
    objs := w.objs.set id c
    acts := w.acts ++ [.use id]
    times := if bytes = [] then w.times else w.times ++ [.transfer id w.now] }

def createConnection (w : Worker) (s : Socket) : Worker :=
  let c : Conn :=
    match s.kind with
    | .tcp => .tcp (TCPConnection.start s w.now w.sslOpen)
    | .udp => .udp (UDPConnection.start s w.now w.sslOpen)
  { w with
    conns := (roomFor w.conns s.fd).set s.fd (some w.objs.length)
    objs := w.objs ++ [c]
    watched := w.objs.length :: w.watched }

/-- `remove_conn`; `c` is what the object holds. -/
def removeConn (w : Worker) (id : ℕ) (c : Conn) : Worker :=
  { w with
    objs := w.objs.set id (c.stamp w.now)
    watched := w.watched.erase id
    conns := w.conns.set c.fd none
    acts := w.acts ++ [.drop id] }

def closeConn (w : Worker) (id : ℕ) (c : Conn) : Worker :=
  ((w.act (.use id)).removeConn id c).push (.close id c.fd)

/-- The handler of a TCP connection. -/
def tcpProcess (w : Worker) (id : ℕ) (c : TCPConnection) (bytes : List UInt8) : Answer → Worker
  | .leave calls ret => (w.visit id (.tcp (runCalls c calls)) bytes).push (.returned id ret)
  | .close => ((w.visit id (.tcp c) bytes).push (.returned id WORKER_CONNECTION_REMOVED)).closeConn id (.tcp c)
  | .remove => ((w.visit id (.tcp c) bytes).push (.returned id WORKER_CONNECTION_REMOVED)).removeConn id (.tcp c)

def tcpReadIo (w : Worker) (id : ℕ) (c : TCPConnection) (env : IoEnv) : Option Worker :=
  (tcpRecv ⟨env.fill, env.stream, w.now⟩ c).map fun
    | .close _ => (w.visit id (.tcp c) []).closeConn id (.tcp c)
    | .ok c₁ =>
      let bytes := (c.sysRead env.stream).bytes
      if c₁.ready then w.tcpProcess id c₁ bytes env.answer else w.visit id (.tcp c₁) bytes

/-- The handler of a UDP connection; `udp_read_io` ignores what it returns. -/
def udpProcess (w : Worker) (id : ℕ) (c : UDPConnection) : Answer → Worker
  | .leave calls _ => w.visit id (.udp (calls.foldl Call.runUdp c)) []
  | .close => (w.visit id (.udp c) []).closeConn id (.udp c)
  | .remove => (w.visit id (.udp c) []).removeConn id (.udp c)

def udpReadIo (w : Worker) (id : ℕ) (c : UDPConnection) (env : IoEnv) : Option Worker :=
  (udpRecv ⟨env.fill, env.dgram, w.now⟩ c).map fun c₁ => w.udpProcess id c₁ env.answer

/-- The connection `_conns[fd]`, if there is one. -/
def lookup (w : Worker) (fd : ℕ) : Option ℕ := (w.conns[fd]?).bind fun p => p

def readIo (w : Worker) (fd : ℕ) (env : IoEnv) : Option Worker :=
  match w.lookup fd with
  | none => some w
  | some id =>
    (w.objs[id]?).bind fun
      | .tcp c => w.tcpReadIo id c env
      | .udp c => w.udpReadIo id c env

/-- `tcp_write_io`; the answers of the socket have to take the loop to its end. -/
def tcpWriteIo (w : Worker) (id : ℕ) (c : TCPConnection) (ks : List Sink) : Option Worker :=
  let r := Spigeon.tcpWriteIo w.now ks c
  match r.stop with
  | .running => none
  | .failed => some ((w.visit id (.tcp r.conn) r.sent).closeConn id (.tcp r.conn))
  | .drained => some (w.visit id (.tcp r.conn) r.sent)
  | .blocked => some (w.visit id (.tcp r.conn) r.sent)

def udpWriteIo (w : Worker) (id : ℕ) (c : UDPConnection) (ks : List Sink) : Option Worker :=
  let r := Spigeon.udpWriteIo w.now ks c
  if r.stop = .running then none else some (w.visit id (.udp r.conn) [])

def writeIo (w : Worker) (fd : ℕ) (ks : List Sink) : Option Worker :=
  match w.lookup fd with
  | none => some w
  | some id =>
    (w.objs[id]?).bind fun
      | .tcp c => w.tcpWriteIo id c ks
      | .udp c => w.udpWriteIo id c ks

/-- `_el->now() - c->_last_interaction > connection_timeout`, unsigned. -/
def expired (w : Worker) (c : Conn) : Prop :=
  w.connectionTimeout < toSize ((w.now : ℤ) - c.base.lastInteraction)

instance (w : Worker) (c : Conn) : Decidable (w.expired c) := inferInstanceAs (Decidable (_ < _))

def processTimeout (w : Worker) (id : ℕ) (c : Conn) : Worker :=
  let u := w.visit id c []
  if w.expired c then ({ u with times := u.times ++ [.expire id w.now] } : Worker).closeConn id c else u

/-- The next task of the running callback. -/
def exec (w : Worker) : Task → Option Worker
  | .readIo fd env => w.readIo fd env
  | .writeIo fd ks => w.writeIo fd ks
  | .returned id ret => if ret ≠ WORKER_OK then (w.objs[id]?).map (w.closeConn id) else some w
  | .close id _ => some (w.act (.shut id))
  | .closeSlot fd =>
    match w.lookup fd with
    | none => some w
    | some id => (w.objs[id]?).map (w.closeConn id)

end Worker

/-- What a worker thread does next. -/
inductive WorkerEvent where
  | clock (now : ℕ)
  | create (s : Socket)
  /-- `conn_io_cb` for the watcher of a connection, with any set of events: libev
  reports both when a descriptor is bad -/
  | io (id : ℕ) (read write : Bool) (env : IoEnv) (answers : List Sink)
  /-- `timeout_cb` -/
  | timer (id : ℕ)
  /-- `add_reply` from outside a handler -/
  | reply (id : ℕ) (r : Slice)
  | stop
  /-- the running callback goes on -/
  | next

def WorkerEvent.isNext : WorkerEvent → Bool
  | .next => true
  | _ => false

namespace Worker

/-- A new callback starts when the last one is done, on a connection that is still
watched. -/
def step (w : Worker) : WorkerEvent → Option Worker
  | .next =>
    match w.todo with
    | [] => none
    | t :: ts => ({ w with todo := ts } : Worker).exec t
  | .clock now => if w.todo.isEmpty then some { w with now := now } else none
  | .create s => if w.todo.isEmpty then some (w.createConnection s) else none
  | .io id rd wr env ks =>
    if w.todo.isEmpty ∧ id ∈ w.watched then
      (w.objs[id]?).map fun c =>
        { w with todo := (if rd then [.readIo c.fd env] else []) ++ (if wr then [.writeIo c.fd ks] else []) }
    else none
  | .timer id =>
    if w.todo.isEmpty ∧ id ∈ w.watched then (w.objs[id]?).map (w.processTimeout id) else none
  | .reply id r =>
    if w.todo.isEmpty ∧ id ∈ w.watched then
      (w.objs[id]?).map fun c => w.visit id (c.addReply r) []
    else none
  | .stop =>
    if w.todo.isEmpty then some { w with todo := (List.range w.conns.length).map .closeSlot } else none

end Worker

end Spigeon
