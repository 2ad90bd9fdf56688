import Spigeon.Spec.System

/-!
# The socket table

`server/network_manager.cpp` and `Connection::~Connection`. `create_server` and
`generic_accept` make the `Socket` objects and enter them into `_sockets` at their
descriptors. A socket is deleted by the destructor of its connection, and in
`create_server` itself when `create_bind` fails. No code takes an entry out of the table.

`destroyed` is the record of the sockets deleted, by their numbers.
-/

namespace Spigeon

open Lifetime

/-- The sockets of the connections that the step from `w` to `w'` removed. -/
def Worker.freed (w w' : Worker) : List ℕ :=
  (w'.acts.drop w.acts.length).filterMap fun
    | .drop id => (w'.objs[id]?).map fun c => c.base.sock.id
    | _ => none

/-- Connections are removed by the callbacks of a worker. -/
def System.freed (s s' : System) : SystemEvent → List ℕ
  | .worker i _ =>
    match s.threads[i]?, s'.threads[i]? with
    | some t, some t' => t.worker.freed t'.worker
    | _, _ => []
  | _ => []

structure Network where
  sys : System
  /-- the descriptors of the sockets that `create_server` made, which stay open -/
  listening : List ℕ
  destroyed : List ℕ

inductive NetworkEvent where
  /-- `create_server`, with the descriptor, or none if `create_bind` fails -/
  | createServer (kind : SockKind) (fd : Option ℕ)
  /-- `generic_accept`, with what `accept` returns -/
  | accept (listenFd : ℕ) (fd : Option ℕ)
  /-- the steps of the dispatcher and its workers other than these calls -/
  | sys (e : SystemEvent)

namespace Network

/-- Before `create_server` the table is empty. -/
def init (workerNum connectionTimeout : ℕ) (sslOpen : Bool) (now : ℕ) : Network :=
  ⟨{ System.init .tcp 0 workerNum connectionTimeout sslOpen now with sockets := [], made := 0 }, [], []⟩

/-- No socket has the descriptor. -/
def free (n : Network) (fd : ℕ) : Prop := fd ∉ n.sys.fds ∧ fd ∉ n.listening

instance (n : Network) (fd : ℕ) : Decidable (n.free fd) := inferInstanceAs (Decidable (_ ∧ _))

def createServer (n : Network) (kind : SockKind) : Option ℕ → Network
  | none => { n with sys := { n.sys with made := n.sys.made + 1 }, destroyed := n.destroyed ++ [n.sys.made] }
  | some fd =>
    { n with
      sys := { n.sys with
        listenFd := fd
        sockets := (roomFor n.sys.sockets fd).set fd (some ⟨n.sys.made, kind, fd⟩)
        made := n.sys.made + 1 }
      listening := fd :: n.listening }

def isAccept : SystemEvent → Bool
  | .accept _ => true
  | _ => false

def step (n : Network) : NetworkEvent → Option Network
  | .createServer kind fd =>
    if n.sys.phase = .idle ∧ ∀ f ∈ fd, n.free f then some (n.createServer kind fd) else none
  | .accept listenFd fd =>
    -- `_sockets[listen_fd]` is the socket of the listening descriptor
    ((n.sys.sockets[listenFd]?).bind fun sk => sk).bind fun sk =>
      if n.sys.phase = .idle ∧ listenFd ∈ n.listening ∧ ∀ f ∈ fd, n.free f then
        some { n with sys := fd.elim n.sys ({ n.sys with serverType := sk.kind } : System).genericAccept }
      else none
  | .sys e =>
    if isAccept e then none
    else (n.sys.step e).map fun s => { n with sys := s, destroyed := n.destroyed ++ n.sys.freed s e }

end Network

end Spigeon
