import Mathlib.Data.List.Basic
import Spigeon.Lib.CInt

/-!
# Sockets and the system calls behind them

`server/socket.h`, `server/socket.cpp`. What the kernel has for a call is an input of
the model (`StreamSrc`, `DgramSrc`, `Sink`); `sysRead…` and `sysWrite` turn it into the
result of `::read` and `::write` for a given length, and `socketRead`, `socketWrite` are
`Socket::read` and `Socket::write` on that result. `Connection::read` and
`Connection::write` pass it on.

A read of length 0 returns 0 whatever the stream holds, one longer than `SSIZE_MAX` is
refused, and no call transfers more than `MAX_RW_COUNT` bytes.
-/

namespace Spigeon

open CInt

def SOCKET_OK : ℤ := 0

def SOCKET_ERR : ℤ := -1

def SOCKET_PEER_CLOSED : ℤ := -2

/-- The two subclasses of `Socket`. -/
inductive SockKind where
  | tcp
  | udp
deriving DecidableEq, Repr

/-- A `Socket` object: `id` tells objects apart, as their addresses do. -/
structure Socket where
  id : ℕ
  kind : SockKind
  fd : ℕ
deriving DecidableEq, Repr

/-- The kernel's limit on one transfer. -/
def maxRwCount : ℕ := 0x7ffff000

/-- What a stream socket has when it is read. -/
inductive StreamSrc where
  /-- at least one byte can be taken -/
  | bytes (b : UInt8) (bs : List UInt8)
  /-- nothing has arrived (`EAGAIN`) -/
  | again
  /-- the peer closed the stream and everything before was taken -/
  | eof
  | error
deriving DecidableEq, Repr

/-- What a datagram socket has when it is read. -/
inductive DgramSrc where
  | datagram (bs : List UInt8)
  | again
  | error
deriving DecidableEq, Repr

/-- The result of `::read`, with the bytes it stored. -/
inductive SysRead where
  | got (bs : List UInt8)
  | again
  | error
deriving DecidableEq, Repr

def SysRead.bytes : SysRead → List UInt8
  | .got bs => bs
  | .again => []
  | .error => []

def sysReadStream (src : StreamSrc) (len : ℕ) : SysRead :=
  if len = 0 then .got []
  else if 2 ^ 63 ≤ len then .error
  else
    match src with
    | .bytes b bs => .got ((b :: bs).take (min len maxRwCount))
    | .again => .again
    | .eof => .got []
    | .error => .error

/-- A datagram longer than the buffer is cut. -/
def sysReadDgram (src : DgramSrc) (len : ℕ) : SysRead :=
  match src with
  | .datagram bs => .got (bs.take len)
  | .again => .again
  | .error => .error

/-- `Socket::read`. -/
def socketRead : SysRead → ℤ
  | .got bs => if toInt bs.length = 0 then SOCKET_PEER_CLOSED else toInt bs.length
  | .again => 0
  | .error => SOCKET_ERR

/-- What a socket does with bytes written to it. -/
inductive Sink where
  /-- there is room for `n` bytes -/
  | room (n : ℕ)
  /-- the write would block (`EAGAIN`) -/
  | again
  | error
deriving DecidableEq, Repr

/-- The result of `::write`. -/
inductive SysWrite where
  | wrote (n : ℕ)
  | again
  | error
deriving DecidableEq, Repr

/-- The number of bytes accepted. -/
def SysWrite.count : SysWrite → ℕ
  | .wrote n => n
  | .again => 0
  | .error => 0

def sysWrite (k : Sink) (len : ℕ) : SysWrite :=
  match k with
  | .room n => .wrote (min n (min len maxRwCount))
  | .again => .again
  | .error => .error

/-- `Socket::write`. -/
def socketWrite : SysWrite → ℤ
  | .wrote n => toInt n
  | .again => 0
  | .error => SOCKET_ERR

end Spigeon
