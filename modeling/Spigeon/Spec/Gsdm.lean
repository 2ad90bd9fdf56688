import Mathlib.Logic.Function.Basic

/-!
# `NewGenericWorker`: commands from other workers

`gsdm/new_worker.cpp`, for one destination: `setup_queue`, `send_cmd`, `notify_unix`,
`recv_unix_notify` and `process_unix_notify`. A command goes to the queue of its source and
type; a `CmdInfo` that names the two goes through the datagram socket.

Sources are their worker ids, one thread each. `send_cmd` is two steps: up to `produce`, and
`notify_unix`. The destination receives a datagram or fails to, looks the queue up and tests
it, and takes its front. A queue is a list, which is what `step_list` shows of `LockFreeQueue`:
`produce` takes effect when it writes `last`, the test of `consume` when it reads `last`, the
rest of it when it writes `divider`. A command is the `BaseCmd` behind the pointer, `none` is
`nullptr`. The socket delivers each datagram once and in order.

`sent` and `processed` only serve the statements, and so does the flag of `Handling`.
-/

namespace Spigeon

structure CmdInfo where
  workerId : UInt32
  cmdType : Int32
deriving DecidableEq, Repr

/-- Where the destination is. `fresh`: the `CmdInfo` in the buffer has just been received; it is
not after a `recvfrom` that failed. -/
inductive Handling where
  | idle
  /-- before the tests of `process_unix_notify` -/
  | lookup (fresh : Bool)
  /-- `consume` has found the queue not empty -/
  | take (fresh : Bool)
deriving DecidableEq, Repr

abbrev QueueHash (α : Type) := Int32 → Option (List (Option α))

abbrev WorkerQueue (α : Type) := UInt32 → Option (QueueHash α)

structure NewGenericWorker (α : Type) where
  workerQueue : WorkerQueue α
  /-- the datagrams on their way to `_unix_sock_wait` -/
  unixSock : List CmdInfo
  unixWaitBuf : CmdInfo
  handling : Handling
  /-- what a source is about to pass to `notify_unix` -/
  sending : Int32 → Option CmdInfo
  /-- the commands given to `produce` for each source and type -/
  sent : CmdInfo → List (Option α)
  /-- the commands whose `process` was called -/
  processed : CmdInfo → List α

inductive GsdmEvent (α : Type) where
  | setup (src : UInt32) (type : Int32)
  /-- a source calls `send_cmd`, up to the end of `produce` -/
  | send (src : Int32) (type : Int32) (cmd : Option α)
  | notify (src : Int32)
  /-- `recvfrom` returns a datagram -/
  | recv
  | recvFails
  /-- `MAP_HAS2` and the test of `consume` -/
  | lookup
  /-- the rest of `process_unix_notify` -/
  | take

variable {α : Type}

namespace WorkerQueue

/-- `MAP_HAS2`, with what is found. -/
def find (m : WorkerQueue α) (src : UInt32) (type : Int32) : Option (List (Option α)) :=
  (m src).bind fun qh => qh type

/-- `m[src]`, which makes an empty entry if there is none. -/
def entry (m : WorkerQueue α) (src : UInt32) : QueueHash α := (m src).getD fun _ => none

/-- `m[src]` as a statement. -/
def touch (m : WorkerQueue α) (src : UInt32) : WorkerQueue α := Function.update m src (some (m.entry src))

/-- An assignment to `m[src][type]`, or a change of the queue there. -/
def put (m : WorkerQueue α) (src : UInt32) (type : Int32) (q : List (Option α)) : WorkerQueue α :=
  Function.update m src (some (Function.update (m.entry src) type (some q)))

end WorkerQueue

namespace NewGenericWorker

/-- After the constructor and `initialize`. -/
def init : NewGenericWorker α := ⟨fun _ => none, [], ⟨0, 0⟩, .idle, fun _ => none, fun _ => [], fun _ => []⟩

def setupQueue (s : NewGenericWorker α) (src : UInt32) (type : Int32) : NewGenericWorker α :=
  if (s.workerQueue.find src type).isSome then s else { s with workerQueue := s.workerQueue.put src type [] }

/-- `send_cmd` up to `notify_unix`: the key is converted to `uint32_t`. -/
def sendCmd (s : NewGenericWorker α) (src : Int32) (type : Int32) (cmd : Option α) : NewGenericWorker α :=
  match s.workerQueue.entry src.toUInt32 type with
  | none => { s with workerQueue := s.workerQueue.touch src.toUInt32 }
  | some q =>
    { s with
      workerQueue := s.workerQueue.put src.toUInt32 type (q ++ [cmd])
      sending := Function.update s.sending src (some ⟨src.toUInt32, type⟩)
      sent := Function.update s.sent ⟨src.toUInt32, type⟩ (s.sent ⟨src.toUInt32, type⟩ ++ [cmd]) }

/-- `src_worker_id` of `process_unix_notify`, an `int`. -/
def srcWorkerId (s : NewGenericWorker α) : Int32 := s.unixWaitBuf.workerId.toInt32

/-- The queue that `process_unix_notify` looks up. -/
def lookedUp (s : NewGenericWorker α) : Option (List (Option α)) :=
  s.workerQueue.find s.srcWorkerId.toUInt32 s.unixWaitBuf.cmdType

/-- `cmd->process(this)` is called unless the command is `nullptr`. -/
def process (s : NewGenericWorker α) (cmd : Option α) : NewGenericWorker α :=
  match cmd with
  | none => s
  | some c => { s with processed := Function.update s.processed s.unixWaitBuf (s.processed s.unixWaitBuf ++ [c]) }

def step (s : NewGenericWorker α) : GsdmEvent α → Option (NewGenericWorker α)
  | .setup src type => some (s.setupQueue src type)
  | .send src type cmd => if s.sending src = none then some (s.sendCmd src type cmd) else none
  | .notify src =>
    (s.sending src).map fun info =>
      { s with unixSock := s.unixSock ++ [info], sending := Function.update s.sending src none }
  | .recv =>
    match s.handling, s.unixSock with
    | .idle, info :: rest => some { s with unixSock := rest, unixWaitBuf := info, handling := .lookup true }
    | _, _ => none
  | .recvFails => if s.handling = .idle then some { s with handling := .lookup false } else none
  | .lookup =>
    match s.handling, s.lookedUp with
    | .lookup fresh, some (_ :: _) => some { s with handling := .take fresh }
    | .lookup _, _ => some { s with handling := .idle }
    | _, _ => none
  | .take =>
    match s.handling, s.lookedUp with
    | .take _, some (cmd :: rest) =>
      some ({ s with
        workerQueue := s.workerQueue.put s.srcWorkerId.toUInt32 s.unixWaitBuf.cmdType rest
        handling := .idle }.process cmd)
    | _, _ => none

end NewGenericWorker

end Spigeon
