import Spigeon.Spec.System

/-!
# A UDP server and the kernel's datagram queues

`server/udp_socket.cpp` on top of the system. `UDPSocket::accept` takes a datagram from
the listening socket into a local buffer, makes a socket and connects it to the sender;
the steps are `recvfrom` and then the system's `accept`, or `acceptFails`. The test `r < 0` for a failed
`recvfrom` is never true, because `r` is a `size_t`: the socket is then connected to the
empty address of `accept_new_conn`, which is no client.

The kernel gives a datagram to an open socket connected to its sender, and to the
listening socket if there is none. Datagrams are numbered in the order of their arrival.
`taken`, `lost` and `handed` are records: the datagrams that the server has taken from
the kernel, those that were in the buffer of `accept` when it returned, and those with
which `process_io_buffer` was called.
-/

namespace Spigeon

structure Ipv4Address where
  ip : UInt32
  port : UInt16
deriving DecidableEq, Repr

structure Datagram where
  /-- its number in the order of arrival -/
  seq : ℕ
  src : Ipv4Address
  data : List UInt8
deriving DecidableEq, Repr

/-- A call of `process_io_buffer` with a datagram. -/
structure Handed where
  dgram : Datagram
  worker : ℕ
  conn : ℕ
  fd : ℕ
  /-- the address that the connection's socket is connected to -/
  peer : Option Ipv4Address
deriving DecidableEq, Repr

structure UdpServer where
  sys : System
  /-- the number of datagrams that have arrived -/
  arrivals : ℕ
  /-- the datagrams at the listening socket -/
  listenQ : List Datagram
  /-- the address that an accepted descriptor is connected to -/
  peers : ℕ → Option Ipv4Address
  /-- the datagrams at an accepted descriptor -/
  queues : ℕ → List Datagram
  /-- while `UDPSocket::accept` runs: what `recvfrom` put into its buffer -/
  calling : Option (Option Datagram)
  taken : List Datagram
  lost : List Datagram
  handed : List Handed

inductive UdpEvent where
  /-- a datagram arrives and the kernel chooses a socket for it -/
  | arrive (src : Ipv4Address) (data : List UInt8) (dest : Option ℕ)
  /-- the `recvfrom` of `UDPSocket::accept` -/
  | recvfrom
  /-- `UDPSocket::accept` fails to make a socket, and `generic_accept` returns NULL -/
  | acceptFails
  | sys (e : SystemEvent)

/-- The read of a UDP connection that the event makes: the connection, its descriptor,
and what the socket has for it. -/
def Worker.dgramRead (w : Worker) (e : WorkerEvent) : Option (ℕ × ℕ × DgramSrc) :=
  if e.isNext then
    match w.todo.head? with
    | some (.readIo fd env) =>
      (w.lookup fd).bind fun id =>
        (w.objs[id]?).bind fun
          | .udp c => some (id, c.fd, env.dgram)
          | .tcp _ => none
    | _ => none
  else none

namespace UdpServer

def init (listenFd workerNum connectionTimeout : ℕ) (sslOpen : Bool) (now : ℕ) : UdpServer :=
  { sys := System.init .udp listenFd workerNum connectionTimeout sslOpen now
    arrivals := 0
    listenQ := []
    peers := fun _ => none
    queues := fun _ => []
    calling := none
    taken := []
    lost := []
    handed := [] }

/-- The kernel receives a datagram. -/
def arrive (u : UdpServer) (d : Datagram) : Option ℕ → Option UdpServer
  | some fd =>
    if fd ∈ u.sys.fds ∧ u.peers fd = some d.src then
      some { u with
        arrivals := u.arrivals + 1
        queues := fun f => if f = fd then u.queues fd ++ [d] else u.queues f }
    else none
  | none =>
    if ∀ fd ∈ u.sys.fds, u.peers fd ≠ some d.src then
      some { u with arrivals := u.arrivals + 1, listenQ := u.listenQ ++ [d] }
    else none

/-- `::recvfrom` on the listening socket, which does not block. -/
def recvfrom (u : UdpServer) : UdpServer :=
  match u.listenQ with
  | [] => { u with calling := some none }
  | d :: q => { u with calling := some (some d), listenQ := q, taken := u.taken ++ [d] }

/-- The rest of `UDPSocket::accept`: a new socket, connected to the sender. -/
def connect (u : UdpServer) (fd : ℕ) (buf : Option Datagram) : UdpServer :=
  { u with
    peers := fun f => if f = fd then buf.map Datagram.src else u.peers f
    queues := fun f => if f = fd then [] else u.queues f
    calling := none
    lost := u.lost ++ buf.toList }

/-- No socket: `create_bind2` has returned `SOCKET_ERR`. -/
def acceptFails (u : UdpServer) (buf : Option Datagram) : UdpServer :=
  { u with calling := none, lost := u.lost ++ buf.toList }

/-- `udp_read_io` reads from its socket and calls the handler; the answer of the socket
has to be the one that its queue gives. -/
def read (u : UdpServer) (i : ℕ) : Option (ℕ × ℕ × DgramSrc) → Option UdpServer
  | none => some u
  | some (_, _, .error) => some u
  | some (_, fd, .again) => if u.queues fd = [] then some u else none
  | some (id, fd, .datagram bs) =>
    match u.queues fd with
    | [] => none
    | d :: q =>
      if d.data = bs then
        some { u with
          queues := fun f => if f = fd then q else u.queues f
          taken := u.taken ++ [d]
          handed := u.handed ++ [⟨d, i, id, fd, u.peers fd⟩] }
      else none

/-- A closed socket is connected to nobody, and its datagrams are gone. -/
def disconnect (u : UdpServer) : Option ℕ → UdpServer
  | none => u
  | some fd =>
    { u with
      peers := fun f => if f = fd then none else u.peers f
      queues := fun f => if f = fd then [] else u.queues f }

/-- What a step of the system does to the sockets. -/
def follow (u : UdpServer) (sys : System) : SystemEvent → Option UdpServer
  | .accept fd => u.calling.map fun buf => { u.connect fd buf with sys := sys }
  | .stop => if u.calling = none then some { u with sys := sys } else none
  | .worker i e =>
    (u.sys.threads[i]?).bind fun t =>
      (u.read i (t.worker.dgramRead e)).map fun v => { v.disconnect (t.worker.shutFd e) with sys := sys }
  | _ => some { u with sys := sys }

def step (u : UdpServer) : UdpEvent → Option UdpServer
  | .arrive src data dest => u.arrive ⟨u.arrivals, src, data⟩ dest
  | .recvfrom => if u.sys.phase = .idle ∧ u.calling = none then some u.recvfrom else none
  | .acceptFails => u.calling.map u.acceptFails
  | .sys e => (u.sys.step e).bind fun sys => u.follow sys e

/-- The address that a connection of a worker is for. -/
def peerOf (u : UdpServer) (w : Worker) (id : ℕ) : Option Ipv4Address :=
  (w.objs[id]?).bind fun c => u.peers c.fd

/-- The number of live connections for a client. -/
def live (u : UdpServer) (a : Ipv4Address) : ℕ :=
  (u.sys.threads.map fun t => (t.worker.watched.filter fun id => u.peerOf t.worker id = some a).length).sum

end UdpServer

end Spigeon
