import Spigeon.Spec.Worker

/-!
# Starting and stopping a server

`server/server.cpp`, `server/dispatcher.cpp`, `server/thread.cpp`, `GenericWorker::bind_cpu`. The
calls `initialize`, `run`, `stop` and the destructor, with the outcome of each system
call as an event. The calls of the thread that owns the server are cut at these outcomes, so
that the worker threads and a `stop` from elsewhere can act in between.

`GenericWorker` objects are numbered in the order of their creation. The record `deletes`
notes each object deleted together with the state of its thread at that moment.

Messages are left out. The one for a server that cannot be created gives the type, a number, to `%s`, which
for UDP reads at an address that is none; here `initialize` returns `SERVER_ERROR` for every type.
-/

namespace Spigeon

/-- `class GenericServerOptions`. Left out are address, type and tick, which nothing modelled
here reads. -/
structure GenericServerOptions where
  workerNum : ℤ
  bindCpu : Bool
  connectionTimeout : ℕ
  maxIoBufferSize : ℕ
  maxReplyListSize : ℤ
  /-- `worker_factory_func` is set -/
  workerFactory : Bool
  sslOpen : ℤ
deriving DecidableEq, Repr

/-- The default constructor. -/
def GenericServerOptions.new : GenericServerOptions :=
  ⟨8, true, 60 * 1000 * 1000, 10 * 1024 * 1024, 1024, false, 0⟩

/-- A worker that the factory makes from the options. -/
def GenericServerOptions.worker (o : GenericServerOptions) (now : ℕ) : Worker :=
  Worker.init o.connectionTimeout (decide (o.sslOpen ≠ 0)) now

def SERVER_OK : ℤ := 0

def SERVER_ERROR : ℤ := -1

/-- The thread of a `Runnable`. -/
inductive ThreadState where
  /-- it was never created -/
  | unborn
  | running
  /-- `run` has returned -/
  | finished
  | joined
deriving DecidableEq, Repr

/-- What a `GenericWorker` is for the dispatcher. -/
structure WorkerObj where
  cpuId : ℤ
  /-- `initialize` made the notification pipe; `spawn_worker` does not ask -/
  piped : Bool
  /-- the pipe has taken a `QUIT` -/
  quit : Bool
  thread : ThreadState
deriving DecidableEq, Repr

/-- `GenericWorker::bind_cpu`, with what `pthread_setaffinity_np` does. -/
def WorkerObj.bindCpu (w : WorkerObj) (affinity : Bool) : Bool :=
  if w.cpuId = -1 then false else affinity

/-- `class GenericDispatcher`. -/
structure Dispatcher where
  workers : List ℕ
  cpuId : ℤ
  pipeWatcher : Bool
  ioWatcher : Bool
  /-- the number of `QUIT`s in the notification pipe -/
  quits : ℕ
  /-- `join_workers` has returned `DISPATCHER_OK` -/
  stopped : Bool
deriving DecidableEq, Repr

def Dispatcher.new : Dispatcher := ⟨[], 0, false, false, 0, false⟩

/-- Where the thread is that calls the server. -/
inductive ServerPhase where
  | idle
  /-- in `create_pipe`, `create_server` -/
  | pipe
  | server
  /-- at the head of the loop over `spawn_worker` -/
  | spawn (i : ℕ)
  /-- in `spawn_worker`, before `create_thread` and before `bind_cpu` -/
  | thread (i id : ℕ)
  | bind (i id : ℕ)
  /-- in the event loop of the dispatcher -/
  | loop
  /-- in `join_workers`, before `notify` and before `join_thread` -/
  | notify (rest : List ℕ)
  | join (rest : List ℕ)
  /-- the server has been destroyed -/
  | gone
deriving DecidableEq, Repr

structure Server where
  options : GenericServerOptions
  phase : ServerPhase
  /-- what the last `initialize` returned -/
  ret : ℤ
  dispatcher : Option Dispatcher
  objs : List WorkerObj
  deletes : List (ℕ × ThreadState)
deriving DecidableEq, Repr

inductive ServerEvent where
  /-- `initialize` is called -/
  | init
  | pipe (ok : Bool)
  | server (ok : Bool)
  /-- the loop goes on; `piped` is the outcome of `GenericWorker::initialize` -/
  | spawn (piped : Bool)
  | thread (ok : Bool)
  | bind (affinity : Bool)
  | run
  /-- `GenericServer::stop`, from any thread -/
  | stop (ok : Bool)
  /-- the dispatcher reads a `QUIT` -/
  | quit
  | notify (ok : Bool)
  | join (ok : Bool)
  /-- the thread of a worker returns from `run` -/
  | finish (id : ℕ)
  | destroy
deriving DecidableEq, Repr

namespace Server

def init (o : GenericServerOptions) : Server := ⟨o, .idle, SERVER_OK, none, [], []⟩

def threadOf (s : Server) (id : ℕ) : ThreadState := (s.objs[id]?).elim .unborn WorkerObj.thread

def setThread (s : Server) (id : ℕ) (t : ThreadState) : Server :=
  { s with objs := s.objs.modify id fun w => { w with thread := t } }

/-- `delete` of a worker. -/
def delete (s : Server) (id : ℕ) : Server := { s with deletes := s.deletes ++ [(id, s.threadOf id)] }

/-- `initialize` returns. -/
def returns (s : Server) (ret : ℤ) : Server := { s with phase := .idle, ret := ret }

/-- One round of the loop in `GenericDispatcher::initialize`, up to `create_thread`. -/
def spawnWorker (s : Server) (d : Dispatcher) (i : ℕ) (piped : Bool) : Server :=
  if ¬ (i : ℤ) < s.options.workerNum then s.returns SERVER_OK
  else if s.options.workerFactory = false then s.returns SERVER_ERROR
  else
    { s with
      phase := .thread i s.objs.length
      objs := s.objs ++ [⟨d.cpuId, piped, false, .unborn⟩]
      dispatcher := some { d with cpuId := d.cpuId + 1 } }

/-- The end of `spawn_worker`, once the thread runs. -/
def bindWorker (s : Server) (d : Dispatcher) (i id : ℕ) (w : WorkerObj) (affinity : Bool) : Server :=
  if s.options.bindCpu = true ∧ w.bindCpu affinity = false then (s.delete id).returns SERVER_ERROR
  else { s with phase := .spawn (i + 1), dispatcher := some { d with workers := d.workers ++ [id] } }

/-- `join_workers` at its loop head; behind the loop the event loop ends. -/
def joinWorkers (s : Server) (d : Dispatcher) : List ℕ → Server
  | [] => { s with phase := .idle, dispatcher := some { d with stopped := true } }
  | id :: rest => { s with phase := .notify (id :: rest) }

/-- `~GenericServer`, `~GenericDispatcher`. -/
def destroy (s : Server) : Server :=
  let workers := s.dispatcher.elim [] Dispatcher.workers
  { workers.foldl delete s with phase := .gone, dispatcher := none }

def step (s : Server) : ServerEvent → Option Server
  | .init =>
    if s.phase = .idle then some { s with phase := .pipe, dispatcher := some Dispatcher.new } else none
  | .pipe ok =>
    if s.phase = .pipe then
      s.dispatcher.map fun d =>
        if ok then { s with phase := .server, dispatcher := some { d with pipeWatcher := true } }
        else s.returns SERVER_ERROR
    else none
  | .server ok =>
    if s.phase = .server then
      s.dispatcher.map fun d =>
        if ok then { s with phase := .spawn 0, dispatcher := some { d with ioWatcher := true } }
        else s.returns SERVER_ERROR
    else none
  | .spawn piped =>
    match s.phase with
    | .spawn i => s.dispatcher.map fun d => s.spawnWorker d i piped
    | _ => none
  | .thread ok =>
    match s.phase with
    | .thread i id =>
      -- the object of a thread that could not be created is not deleted
      some (if ok then { s.setThread id .running with phase := .bind i id } else s.returns SERVER_ERROR)
    | _ => none
  | .bind affinity =>
    match s.phase with
    | .bind i id =>
      s.dispatcher.bind fun d => (s.objs[id]?).map fun w => s.bindWorker d i id w affinity
    | _ => none
  | .run =>
    if s.phase = .idle then
      -- `ev_run` returns at once when nothing is watched
      s.dispatcher.map fun d => if d.pipeWatcher || d.ioWatcher then { s with phase := .loop } else s
    else none
  | .stop ok =>
    s.dispatcher.map fun d =>
      if ok && d.pipeWatcher then { s with dispatcher := some { d with quits := d.quits + 1 } } else s
  | .quit =>
    if s.phase = .loop then
      s.dispatcher.bind fun d =>
        if d.pipeWatcher ∧ 0 < d.quits then
          let d' := { d with pipeWatcher := false, ioWatcher := false, quits := d.quits - 1 }
          some (joinWorkers { s with dispatcher := some d' } d' d'.workers)
        else none
    else none
  | .notify ok =>
    match s.phase with
    | .notify (id :: rest) =>
      some { s with
        phase := .join (id :: rest)
        objs := s.objs.modify id fun w => { w with quit := w.quit || (ok && w.piped) } }
    | _ => none
  | .join ok =>
    match s.phase with
    | .join (id :: rest) =>
      s.dispatcher.bind fun d =>
        if ok then
          if s.threadOf id = .finished then some ((s.setThread id .joined).joinWorkers d rest) else none
        else some { s with phase := .idle }
    | _ => none
  | .finish id =>
    (s.objs[id]?).bind fun w =>
      -- without its pipe the loop of a worker has nothing to watch
      if w.thread = .running ∧ (w.quit = true ∨ w.piped = false) then some (s.setThread id .finished) else none
  | .destroy => if s.phase = .gone then none else some s.destroy

end Server

end Spigeon
