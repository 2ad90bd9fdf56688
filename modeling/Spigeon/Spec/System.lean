import Spigeon.Lib.CStr
import Spigeon.Spec.Worker

/-!
# The dispatcher and its workers

`server/dispatcher.cpp`, `server/network_manager.cpp` and the notifications of
`server/worker.cpp`. The dispatcher's thread accepts sockets and gives them to the
workers in turn: `dispatch_new_conn` puts the socket into the worker's `_mq` and then
writes `NEW_CONNECTION` to its pipe. A worker's thread reads one message at a time and
pops one socket for each `NEW_CONNECTION`.

A step is one action of one thread, so steps of different threads interleave freely. The
descriptors in `fds` are those the kernel has given to `accept` and that are still open;
a descriptor can be given again once it is closed. `_mq` is the list of its elements:
one thread produces and one consumes, and for them `LockFreeQueue` is a queue
(`Spigeon.Proof.Queue`).

A pipe write either puts the whole message into the pipe or fails. The lists
`dispatched`, `created`, `rejected`, `accepts` and `closes` are records of what happened.
-/

namespace Spigeon

open CInt CStr

/-- A notification of a worker. -/
inductive Msg where
  | quit
  | newConnection
  /-- any other number, for `process_notify` -/
  | other
deriving DecidableEq, Repr

/-- A worker with its queue and its pipe. -/
structure WorkerThread where
  worker : Worker
  mq : List Socket
  /-- written and not read yet -/
  pipe : List Msg
  /-- read by `recv_notify`, not processed yet -/
  msg : Option Msg
  /-- `stop` has closed the pipe and ended the event loop -/
  stopped : Bool
  /-- pushed by `dispatch_new_conn` -/
  dispatched : List Socket
  /-- passed to `create_connection` -/
  created : List Socket
  /-- those for which `dispatch_new_conn` returned `DISPATCHER_ERROR` -/
  rejected : List Socket

/-- Where the dispatcher's thread is. -/
inductive Phase where
  /-- in its event loop -/
  | idle
  /-- `generic_accept` has returned a socket -/
  | accepted (s : Socket)
  /-- the socket is in the queue of a worker, which is to be notified -/
  | pushed (i : ℕ) (s : Socket)
  /-- `join_workers` is about to tell a worker to quit -/
  | quitting (i : ℕ)
  /-- `join_workers` waits for the end of a worker -/
  | joining (i : ℕ)
deriving DecidableEq, Repr

structure System where
  serverType : SockKind
  listenFd : ℕ
  threads : List WorkerThread
  phase : Phase
  nextWorker : ℕ
  /-- `NetworkManager::_sockets` -/
  sockets : List (Option Socket)
  /-- the number of `Socket` objects made -/
  made : ℕ
  fds : List ℕ
  accepts : List ℕ
  closes : List ℕ

namespace WorkerThread

def init (connectionTimeout : ℕ) (sslOpen : Bool) (now : ℕ) : WorkerThread :=
  ⟨Worker.init connectionTimeout sslOpen now, [], [], none, false, [], [], []⟩

/-- `notify`, with the outcome of the write; a closed pipe takes nothing. -/
def notify (t : WorkerThread) (m : Msg) (ok : Bool) : Option WorkerThread :=
  if ok then
    if t.stopped then none else some { t with pipe := t.pipe ++ [m] }
  else some t

/-- The read in `recv_notify`. -/
def recvNotify (t : WorkerThread) : Option WorkerThread :=
  if t.msg = none ∧ t.stopped = false ∧ t.worker.todo.isEmpty then
    match t.pipe with
    | [] => none
    | m :: ms => some { t with pipe := ms, msg := some m }
  else none

def processInternalNotify (t : WorkerThread) : Msg → Option WorkerThread
  | .quit => (t.worker.step .stop).map fun w => { t with worker := w, msg := none, stopped := true }
  | .newConnection =>
    match t.mq with
    | [] => some { t with msg := none }
    | sk :: mq =>
      (t.worker.step (.create sk)).map fun w =>
        { t with worker := w, mq := mq, msg := none, created := t.created ++ [sk] }
  | .other => some { t with msg := none }

end WorkerThread

/-- The events of a worker's own loop; `create_connection` and `stop` are called by
`process_internal_notify`. -/
def WorkerEvent.own : WorkerEvent → Bool
  | .create _ => false
  | .stop => false
  | _ => true

/-- The descriptor that a task closes. -/
def Task.closeFd : Task → Option ℕ
  | .close _ fd => some fd
  | _ => none

/-- The descriptor that the event closes. -/
def Worker.shutFd (w : Worker) (e : WorkerEvent) : Option ℕ :=
  if e.isNext then w.todo.head?.bind Task.closeFd else none

inductive SystemEvent where
  /-- `generic_accept` returns a socket for a new descriptor -/
  | accept (fd : ℕ)
  /-- `dispatch_new_conn` up to `mq_push` -/
  | push
  /-- the `notify` of `dispatch_new_conn` -/
  | notify (ok : Bool)
  /-- the dispatcher's `stop` -/
  | stop
  /-- `join_workers`: `notify(QUIT)` -/
  | quit (ok : Bool)
  /-- `join_workers`: `join_thread` -/
  | join
  /-- another notification for a worker -/
  | post (i : ℕ)
  | recv (i : ℕ)
  | process (i : ℕ)
  | worker (i : ℕ) (e : WorkerEvent)

namespace System

/-- The server after `initialize`: the listening socket is in the table. -/
def init (serverType : SockKind) (listenFd workerNum connectionTimeout : ℕ) (sslOpen : Bool) (now : ℕ) : System :=
  { serverType := serverType
    listenFd := listenFd
    threads := List.replicate workerNum (WorkerThread.init connectionTimeout sslOpen now)
    phase := .idle
    nextWorker := 0
    sockets := (roomFor [] listenFd).set listenFd (some ⟨0, serverType, listenFd⟩)
    made := 1
    fds := []
    accepts := []
    closes := [] }

def setThread (s : System) (i : ℕ) (t : WorkerThread) : System := { s with threads := s.threads.set i t }

/-- The thread `i` takes a step. -/
def onThread (s : System) (i : ℕ) (f : WorkerThread → Option WorkerThread) : Option System :=
  (s.threads[i]?).bind fun t => (f t).map (s.setThread i)

/-- `generic_accept` with `wrap_socket`, for a descriptor that was not open. -/
def genericAccept (s : System) (fd : ℕ) : System :=
  let sk : Socket := ⟨s.made, s.serverType, fd⟩
  { s with
    phase := .accepted sk
    sockets := (roomFor s.sockets fd).set fd (some sk)
    made := s.made + 1
    fds := fd :: s.fds
    accepts := s.accepts ++ [fd] }

/-- The choice of a worker and `mq_push`. -/
def mqPush (s : System) (sk : Socket) (t : WorkerThread) : System :=
  { s.setThread s.nextWorker { t with mq := t.mq ++ [sk], dispatched := t.dispatched ++ [sk] } with
    phase := .pushed s.nextWorker sk
    nextWorker := (s.nextWorker + 1) % s.threads.length }

/-- The end of `dispatch_new_conn`. -/
def dispatchEnd (s : System) (i : ℕ) (sk : Socket) (ok : Bool) (t : WorkerThread) : System :=
  { s.setThread i (if ok then t else { t with rejected := t.rejected ++ [sk] }) with phase := .idle }

/-- The kernel's part of a `close`. -/
def shut (s : System) : Option ℕ → System
  | none => s
  | some fd => { s with fds := s.fds.erase fd, closes := s.closes ++ [fd] }

def step (s : System) : SystemEvent → Option System
  | .accept fd =>
    if s.phase = .idle ∧ fd ∉ s.fds ∧ fd ≠ s.listenFd then some (s.genericAccept fd) else none
  | .push =>
    match s.phase with
    | .accepted sk => (s.threads[s.nextWorker]?).map (s.mqPush sk)
    | _ => none
  | .notify ok =>
    match s.phase with
    | .pushed i sk => (s.threads[i]?).bind fun t => (t.notify .newConnection ok).map (s.dispatchEnd i sk ok)
    | _ => none
  | .stop => if s.phase = .idle then some { s with phase := .quitting 0 } else none
  | .quit ok =>
    match s.phase with
    | .quitting i => (s.onThread i (·.notify .quit ok)).map fun s' => { s' with phase := .joining i }
    | _ => none
  | .join =>
    match s.phase with
    | .joining i =>
      (s.threads[i]?).bind fun t =>
        if t.stopped = true ∧ t.worker.todo.isEmpty then some { s with phase := .quitting (i + 1) } else none
    | _ => none
  | .post i => s.onThread i (·.notify .other true)
  | .recv i => s.onThread i (·.recvNotify)
  | .process i => s.onThread i fun t => t.msg.bind t.processInternalNotify
  | .worker i e =>
    (s.threads[i]?).bind fun t =>
      if e.own = true ∧ t.msg = none ∧ (t.stopped = false ∨ e.isNext = true) then
        (t.worker.step e).map fun w => (s.setThread i { t with worker := w }).shut (t.worker.shutFd e)
      else none

end System

/-! ### The number of clients -/

/-- `GenericWorker::get_clients_count`: the size of the table, as an `int`. -/
def Worker.getClientsCount (w : Worker) : ℤ := toInt w.conns.length

/-- The loop of `get_clients_count` from the worker `i` on, with the number and the text it has so
far. `workerId` are the names of the workers. -/
def countClients (workerId : ℕ → List UInt8) : ℕ → List WorkerThread → ℤ → List UInt8 → ℤ × List UInt8
  | _, [], current, temp => (current, temp)
  | i, t :: ts, current, temp =>
    let count := t.worker.getClientsCount
    countClients workerId (i + 1) ts (current + count)
      (temp ++ bytes "," ++ workerId i ++ bytes ":" ++ bytes (toString count))

/-- `GenericDispatcher::get_clients_count`: the number, and `clients_detail`, which is assigned as a C
string. An `int64_t` holds the sum for as many workers as an `int` can count. -/
def System.getClientsCount (s : System) (workerId : ℕ → List UInt8) : ℤ × List UInt8 :=
  let r := countClients workerId 0 s.threads 0 (bytes "[")
  (r.1, cStr (r.2 ++ bytes "]"))

end Spigeon
