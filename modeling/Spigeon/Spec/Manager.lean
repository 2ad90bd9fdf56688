import Spigeon.Spec.Udp

/-!
# The network manager, call by call

`server/network_manager.cpp`, with `create_bind` and `create_bind2` of `server/socket.cpp`,
`TCPSocket::listen` and `UDPSocket::accept`. In `Spigeon.Spec.Network` the labels say whether
`create_bind` and `accept` succeed. Here the outcomes are those of the system calls, and the
sockets that the kernel has open are part of the state.

An access outside a vector or through a null pointer is `none`.
-/

namespace Spigeon

/-! ### The kernel -/

/-- What the kernel knows of an open socket. -/
structure KernelSocket where
  bound : Option Ipv4Address
  listening : Bool
  peer : Option Ipv4Address
deriving DecidableEq, Repr

/-- The open sockets, by their descriptors. -/
abbrev Kernel := ℕ → Option KernelSocket

namespace Kernel

def socket (k : Kernel) (fd : ℕ) : Kernel := Function.update k fd (some ⟨none, false, none⟩)

def bind (k : Kernel) (fd : ℕ) (addr : Ipv4Address) : Kernel :=
  Function.update k fd ((k fd).map fun s => { s with bound := some addr })

def listen (k : Kernel) (fd : ℕ) : Kernel :=
  Function.update k fd ((k fd).map fun s => { s with listening := true })

/-- `connect` to an address, or to one of no family, after which the socket has no peer. -/
def connect (k : Kernel) (fd : ℕ) (addr : Option Ipv4Address) : Kernel :=
  Function.update k fd ((k fd).map fun s => { s with peer := addr })

def close (k : Kernel) (fd : ℕ) : Kernel := Function.update k fd none

end Kernel

/-! ### Sockets -/

/-- The outcomes of the calls in `create_bind`. The kernel gives out a descriptor that is not
open. -/
structure BindCalls (k : Kernel) where
  socket : Option ℕ
  setsockopt : Bool
  bind : Bool
  fresh : ∀ fd ∈ socket, k fd = none

/-- `create_bind`, which leaves the descriptor in `_s`, and `create_bind2`, which returns it. Neither
looks at the outcome of `setsockopt`. -/
def createBind (k : Kernel) (addr : Ipv4Address) (c : BindCalls k) : Kernel × Option ℕ :=
  match c.socket with
  | none => (k, none)
  | some fd =>
    if c.bind then ((k.socket fd).bind fd addr, some fd)
    else ((k.socket fd).close fd, none)

structure AcceptCalls (k : Kernel) extends BindCalls k where
  /-- the sender of the datagram, if `recvfrom` returns one -/
  recvfrom : Option Ipv4Address
  connect : Bool

/-- `UDPSocket::accept`. `r < 0` is never true of a `size_t`. Without a datagram the address stays as
`accept_new_conn` has made it, which has no family. -/
def udpAccept (k : Kernel) (addr : Ipv4Address) (c : AcceptCalls k) : Kernel × Option ℕ :=
  match createBind k addr c.toBindCalls with
  -- `connect` fails on the descriptor -1
  | (k', none) => (k', none)
  | (k', some fd) => (if c.connect then k'.connect fd c.recvfrom else k', some fd)

/-! ### The manager -/

def G_SERVER_TCP : ℤ := 0

def G_SERVER_UDP : ℤ := 1

structure NetworkManager where
  sockets : List (Option Socket)
  /-- `_listen_fd`, `none` for -1 -/
  listenFd : Option ℕ
  /-- the number of `Socket` objects made -/
  made : ℕ
deriving DecidableEq, Repr

structure ServerCalls (k : Kernel) extends BindCalls k where
  listen : Bool

/-- `v[i] = a`. -/
def assign {α : Type} (v : List α) (i : ℕ) (a : α) : Option (List α) :=
  if i < v.length then some (v.set i a) else none

namespace NetworkManager

/-- The table gets room for a new socket, and the socket. -/
def enter (m : NetworkManager) (kind : SockKind) (fd : ℕ) : Option (NetworkManager × Socket) :=
  let s : Socket := ⟨m.made, kind, fd⟩
  (assign (roomFor m.sockets fd) fd (some s)).map fun v => ({ m with sockets := v, made := m.made + 1 }, s)

/-- The end of `create_server`. -/
def enterServer (m : NetworkManager) (kind : SockKind) (fd : ℕ) : Option (NetworkManager × Socket) :=
  (m.enter kind fd).map fun r => ({ r.1 with listenFd := some fd }, r.2)

/-- `create_server` for the `server_type` of the options, with the pointer it returns. -/
def createServer (m : NetworkManager) (k : Kernel) (serverType : ℤ) (addr : Ipv4Address) (c : ServerCalls k) :
    Option (NetworkManager × Kernel × Option Socket) :=
  -- the parameter is a `uint8_t`
  let type := serverType % 256
  if type = G_SERVER_TCP then
    match createBind k addr c.toBindCalls with
    | (k', none) => some ({ m with made := m.made + 1 }, k', none)
    | (k', some fd) =>
      -- `TCPSocket::listen` closes the descriptor if it fails, and its result is not looked at
      let k'' := if c.listen then k'.listen fd else k'.close fd
      (m.enterServer .tcp fd).map fun r => (r.1, k'', some r.2)
  else if type = G_SERVER_UDP then
    match createBind k addr c.toBindCalls with
    | (k', none) => some ({ m with made := m.made + 1 }, k', none)
    | (k', some fd) => (m.enterServer .udp fd).map fun r => (r.1, k', some r.2)
  -- `s` is a null pointer
  else none

/-- `wrap_socket`; the options it sets have no part in what follows. -/
def wrapSocket (m : NetworkManager) (listening : Socket) (fd : ℕ) : Option (NetworkManager × Socket) :=
  m.enter listening.kind fd

/-- `generic_accept` with what `accept` returns. `accept_new_conn` dispatches the socket unless
it is a null pointer. -/
def genericAccept (m : NetworkManager) (listenFd : ℕ) (fd : Option ℕ) : Option (NetworkManager × Option Socket) :=
  ((m.sockets[listenFd]?).bind fun s => s).bind fun s =>
    match fd with
    | none => some (m, none)
    | some fd => (m.wrapSocket s fd).map fun r => (r.1, some r.2)

end NetworkManager

/-! ### The tables of the workers -/

/-- `_conns`, with the descriptors of the connections that the worker has made. -/
structure WorkerTable where
  conns : List (Option ℕ)
  fds : List ℕ
deriving DecidableEq, Repr

structure Tables where
  manager : NetworkManager
  workers : ℕ → WorkerTable

/-- The calls that access a table. A worker is given by its number, a connection by its worker and its
own number. -/
inductive TableCall where
  | createServer (kind : SockKind) (fd : ℕ)
  | wrapSocket (listening : Socket) (fd : ℕ)
  | createConnection (i fd : ℕ)
  | readIo (i fd : ℕ)
  | writeIo (i fd : ℕ)
  | removeConn (i id : ℕ)
deriving DecidableEq, Repr

namespace Tables

def init : Tables := ⟨⟨[], none, 0⟩, fun _ => ⟨List.replicate INITIAL_FD_NUM none, []⟩⟩

def setWorker (t : Tables) (i : ℕ) (w : WorkerTable) : Tables :=
  { t with workers := Function.update t.workers i w }

def createConnection (t : Tables) (i fd : ℕ) : Option Tables :=
  let w := t.workers i
  (assign (roomFor w.conns fd) fd (some w.fds.length)).map fun v => t.setWorker i ⟨v, w.fds ++ [fd]⟩

/-- The accesses of `read_io`. -/
def readIo (t : Tables) (i fd : ℕ) : Option Tables :=
  if (t.workers i).conns.length ≤ fd then some t
  else ((t.workers i).conns[fd]?).map fun _ => t

/-- The accesses of `write_io`: the size that is checked is that of `_conns`. -/
def writeIo (t : Tables) (i fd : ℕ) : Option Tables :=
  if (t.workers i).conns.length ≤ fd then some t
  else
    (t.manager.sockets[fd]?).bind fun s =>
      match s with
      | none => some t
      | some _ => ((t.workers i).conns[fd]?).map fun _ => t

/-- `remove_conn`; without such a connection there is no call. -/
def removeConn (t : Tables) (i id : ℕ) : Option Tables :=
  match (t.workers i).fds[id]? with
  | none => some t
  | some fd => (assign (t.workers i).conns fd none).map fun v => t.setWorker i { t.workers i with conns := v }

/-- A call, `none` if it accesses a table outside its entries. -/
def step (t : Tables) : TableCall → Option Tables
  | .createServer kind fd => (t.manager.enterServer kind fd).map fun r => { t with manager := r.1 }
  | .wrapSocket listening fd => (t.manager.wrapSocket listening fd).map fun r => { t with manager := r.1 }
  | .createConnection i fd => t.createConnection i fd
  | .readIo i fd => t.readIo i fd
  | .writeIo i fd => t.writeIo i fd
  | .removeConn i id => t.removeConn i id

end Tables

end Spigeon
