import Spigeon.Spec.Event
import Spigeon.Spec.Sds
import Spigeon.Spec.Socket

/-!
# Connections

`server/connection.h`, `server/tcp_connection.cpp`, `server/udp_connection.h`. Left out are
`_ip`, `_port` and the private data, which nothing modelled here reads.

`Connection::read` and `Connection::write` of `connection.cpp` end without a `return`, so what they return is
undefined in C++. The callers are modelled with what `Socket::read` and `Socket::write` return, as the two
functions are meant.
-/

namespace Spigeon

open CInt

/-- A reply: the buffer it was allocated in and its bytes, whose number is a `size_t`. -/
structure Slice where
  addr : ℕ
  data : List UInt8
  size_lt : data.length < 2 ^ 64
deriving DecidableEq, Repr

/-- `class Connection`. `_reply_list_size` is an `int`; here it is not wrapped, so a list of `2 ^ 31` replies is
out of scope. -/
structure Connection where
  sock : Socket
  lastInteraction : ℕ
  watcher : IOWatcher
  ioBuffer : Sds
  replyListSize : ℤ
  replyList : List Slice
deriving DecidableEq, Repr

/-- `class TCPConnection`. -/
structure TCPConnection extends Connection where
  receiveState : ℤ
  bytesExpected : ℕ
  bytesProcessed : ℕ
  bytesWritten : ℕ
deriving DecidableEq, Repr

/-- `class UDPConnection`. -/
structure UDPConnection extends Connection
deriving DecidableEq, Repr

def Connection.fd (c : Connection) : ℕ := c.sock.fd

/-- The base constructor; `create_connection` sets `_last_interaction` and `_watcher`. -/
def Connection.new (s : Socket) : Connection := ⟨s, 0, createIoEvent, sdsempty, 0, []⟩

def TCPConnection.new (s : Socket) : TCPConnection := ⟨Connection.new s, 0, 1, 0, 0⟩

def UDPConnection.new (s : Socket) : UDPConnection := ⟨Connection.new s⟩

namespace TCPConnection

def reset (c : TCPConnection) (initialState : ℤ) (initialBytesExpected : ℕ) : TCPConnection :=
  { c with bytesProcessed := 0, receiveState := initialState, bytesExpected := initialBytesExpected }

def expectNext (c : TCPConnection) (nextState : ℤ) (nextBytesExpected : ℕ) : TCPConnection :=
  { c with
    bytesProcessed := (c.bytesProcessed + c.bytesExpected) % 2 ^ 64
    receiveState := nextState
    bytesExpected := nextBytesExpected }

def shrinkProcessed (c : TCPConnection) (nextState : ℤ) (nextBytesExpected : ℕ) : TCPConnection :=
  -- the first argument of `sdsrange` is an `int`
  let processed : ℕ := (c.bytesProcessed + c.bytesExpected) % 2 ^ 64
  { c with
    ioBuffer := sdsrange c.ioBuffer (toInt processed) (-1)
    bytesProcessed := 0
    receiveState := nextState
    bytesExpected := nextBytesExpected }

end TCPConnection

/-- `GenericWorker::add_reply` on the base of either kind of connection. -/
def Connection.addReply (c : Connection) (reply : Slice) : Connection :=
  { c with
    replyList := c.replyList ++ [reply]
    replyListSize := c.replyListSize + 1
    watcher := startIoEvent c.watcher c.fd Mask.WRITE }

/-- What a TCP handler may do to its connection while it keeps it. -/
inductive Call where
  | reset (state : ℤ) (expected : ℕ)
  | expectNext (state : ℤ) (expected : ℕ)
  | shrinkProcessed (state : ℤ) (expected : ℕ)
  | addReply (reply : Slice)
deriving DecidableEq, Repr

def Call.run (c : TCPConnection) : Call → TCPConnection
  | .reset st n => c.reset st n
  | .expectNext st n => c.expectNext st n
  | .shrinkProcessed st n => c.shrinkProcessed st n
  | .addReply r => { c with toConnection := c.toConnection.addReply r }

/-- The calls in the order the handler makes them. -/
def runCalls (c : TCPConnection) (calls : List Call) : TCPConnection := calls.foldl Call.run c

end Spigeon
