import Spigeon.Spec.Connection

/-!
# One read or write event on one connection

`server/worker.cpp`: `tcp_read_io`, `udp_read_io`, `tcp_write_io`, `udp_write_io`, as far as
they concern the connection itself. Each read function is cut at the call of
`process_io_buffer`: `tcpRecv` and `udpRecv` are what comes before it. `tcpReadIo` adds
a handler that keeps its connection; the worker (`Spigeon.Spec.Worker`) adds the
handlers that remove it. `none` is a write outside a block or a failed assertion.

The write loops take the list of what the socket does with the successive writes.
When the list ends before the loop does, the loop is still running.
-/

namespace Spigeon

open CInt

def WORKER_OK : ℤ := 0

def WORKER_ERROR : ℤ := -1

def WORKER_CONNECTION_REMOVED : ℤ := -2

/-! ## Reading -/

/-- What a TCP read event meets: fresh memory, the stream, and the clock. -/
structure ReadEnv where
  fill : ℕ → UInt8
  src : StreamSrc
  now : ℕ

/-- Why `tcp_read_io` closed the connection. -/
inductive CloseCause where
  | socketErr
  | peerClosed
  | handler
deriving DecidableEq, Repr

/-- `tcp_read_io` up to the test for a complete frame. -/
inductive Recv where
  | close (cause : CloseCause)
  | ok (c : TCPConnection)
deriving DecidableEq, Repr

/-- The length given to `read`: `int rlen = c->_bytes_expected`. -/
def TCPConnection.rlen (c : TCPConnection) : ℤ := toInt c.bytesExpected

/-- The result of `::read` in `tcp_read_io`. -/
def TCPConnection.sysRead (c : TCPConnection) (src : StreamSrc) : SysRead :=
  sysReadStream src (toSize c.rlen)

def tcpRecv (e : ReadEnv) (c : TCPConnection) : Option Recv :=
  let iblen := sdslen c.ioBuffer
  let buf := sdsMakeRoomFor e.fill c.ioBuffer (toSize c.rlen)
  let got := c.sysRead e.src
  (poke buf.buf iblen got.bytes).bind fun b =>
    let buf := { buf with buf := b }
    let r := socketRead got
    if r = SOCKET_ERR then some (.close .socketErr)
    else if r = SOCKET_PEER_CLOSED then some (.close .peerClosed)
    else
      (if r > 0 then sdsIncrLen buf r else some buf).map fun buf =>
        .ok { c with ioBuffer := buf, lastInteraction := e.now }

/-- `sdslen(c->_io_buffer) - c->_bytes_processed >= c->_bytes_expected`, in `size_t`. -/
def TCPConnection.ready (c : TCPConnection) : Bool :=
  decide (c.bytesExpected ≤ toSize ((sdslen c.ioBuffer : ℤ) - c.bytesProcessed))

/-- How `tcp_read_io` ends. `handed` is the connection as the handler found it. -/
inductive ReadIo where
  | closed (cause : CloseCause)
  | opened (c : TCPConnection) (handed : Option TCPConnection)
deriving DecidableEq, Repr

/-- `tcp_read_io` with a handler that makes some calls and returns a code. -/
def tcpReadIo (h : TCPConnection → List Call × ℤ) (e : ReadEnv) (c : TCPConnection) :
    Option ReadIo :=
  (tcpRecv e c).map fun
    | .close cause => .closed cause
    | .ok c =>
      if c.ready then
        if (h c).2 ≠ WORKER_OK then .closed .handler else .opened (runCalls c (h c).1) (some c)
      else .opened c none

/-- What a UDP read event meets. -/
structure DgramEnv where
  fill : ℕ → UInt8
  src : DgramSrc
  now : ℕ

/-- `udp_read_io` up to the call of the handler: the datagram goes to the start of
the buffer, its length is added to the string. -/
def udpRecv (e : DgramEnv) (c : UDPConnection) : Option UDPConnection :=
  let buf := sdsMakeRoomFor e.fill c.ioBuffer 1024
  let got := sysReadDgram e.src 1024
  (poke buf.buf 0 got.bytes).bind fun b =>
    let buf := { buf with buf := b }
    let r := socketRead got
    (if r > 0 then sdsIncrLen buf r else some buf).map fun buf =>
      { c with ioBuffer := buf, lastInteraction := e.now }

/-! ## Writing -/

/-- How far a write loop got. -/
inductive LoopEnd where
  /-- the socket has not answered the next write yet -/
  | running
  /-- the list is empty -/
  | drained
  /-- a write would block -/
  | blocked
  /-- a write failed -/
  | failed
deriving DecidableEq, Repr

/-- A write loop: the connection, the bytes the socket accepted, the replies freed. -/
structure WriteRun where
  conn : TCPConnection
  sent : List UInt8
  freed : List Slice
  stop : LoopEnd
deriving DecidableEq, Repr

/-- `reply.size() - c->_bytes_written`, in `size_t`. -/
def TCPConnection.offered (c : TCPConnection) (reply : Slice) : ℕ :=
  toSize ((reply.data.length : ℤ) - c.bytesWritten)

/-- The finished reply leaves the list. -/
def TCPConnection.popReply (c : TCPConnection) (rest : List Slice) : TCPConnection :=
  { c with replyList := rest, replyListSize := c.replyListSize - 1, bytesWritten := 0 }

/-- The loop of `tcp_write_io`. -/
def tcpWriteLoop (c : TCPConnection) : List Sink → WriteRun
  | [] => ⟨c, [], [], if c.replyList = [] then .drained else .running⟩
  | k :: ks =>
    match c.replyList with
    | [] => ⟨c, [], [], .drained⟩
    | reply :: rest =>
      let out := sysWrite k (c.offered reply)
      let w := socketWrite out
      let data := (reply.data.drop c.bytesWritten).take out.count
      if w = SOCKET_ERR then ⟨c, [], [], .failed⟩
      else if w = 0 then ⟨c, [], [], .blocked⟩
      else if toSize (w + c.bytesWritten) = reply.data.length then
        let r := tcpWriteLoop (c.popReply rest) ks
        { r with sent := data ++ r.sent, freed := reply :: r.freed }
      else
        let r := tcpWriteLoop { c with bytesWritten := toSize (c.bytesWritten + w) } ks
        { r with sent := data ++ r.sent }

/-- `disable_events(c, EventLoop::WRITE)`. -/
def Connection.disableWrite (c : Connection) : Connection :=
  { c with watcher := stopIoEvent c.watcher c.fd Mask.WRITE }

/-- What both write functions do behind their loop. -/
def Connection.endWrite (c : Connection) (now : ℕ) : Connection :=
  { c.disableWrite with lastInteraction := now }

/-- `tcp_write_io`: only a loop that drained the list gets behind it. -/
def tcpWriteIo (now : ℕ) (ks : List Sink) (c : TCPConnection) : WriteRun :=
  let r := tcpWriteLoop c ks
  if r.stop = .drained then { r with conn := { r.conn with toConnection := r.conn.toConnection.endWrite now } }
  else r

/-- A UDP write loop: the connection and the replies freed. -/
structure UdpWriteRun where
  conn : UDPConnection
  freed : List Slice
  stop : LoopEnd
deriving DecidableEq, Repr

/-- The loop of `udp_write_io`: a reply leaves the list when the socket took it whole,
and everything else is tried again. -/
def udpWriteLoop (c : UDPConnection) : List Sink → UdpWriteRun
  | [] => ⟨c, [], if c.replyList = [] then .drained else .running⟩
  | k :: ks =>
    match c.replyList with
    | [] => ⟨c, [], .drained⟩
    | reply :: rest =>
      let w := socketWrite (sysWrite k reply.data.length)
      if toSize w = reply.data.length then
        let r := udpWriteLoop { c with replyList := rest, replyListSize := c.replyListSize - 1 } ks
        { r with freed := reply :: r.freed }
      else udpWriteLoop c ks

def udpWriteIo (now : ℕ) (ks : List Sink) (c : UDPConnection) : UdpWriteRun :=
  let r := udpWriteLoop c ks
  if r.stop = .drained then { r with conn := { r.conn with toConnection := r.conn.toConnection.endWrite now } }
  else r

end Spigeon
