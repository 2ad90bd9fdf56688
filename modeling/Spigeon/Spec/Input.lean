import Spigeon.Spec.Io

/-!
# The input side of a TCP connection over a run of read events

A run is a list of read events on one connection, with one handler. The state keeps
the connection and the handler's memory, and for the statements the bytes read so far,
the bytes dropped so far and the frames handed to the handler.
-/

namespace Spigeon

/-- A handler `process_io_buffer` with a memory of its own: the calls it makes on the
connection and the code it returns. -/
abbrev Handler (σ : Type) := σ → TCPConnection → σ × List Call × ℤ

/-- A connection as `create_connection` starts it. -/
def Connection.start (c : Connection) (now : ℕ) (sslOpen : Bool) : Connection :=
  { c with
    lastInteraction := now
    watcher := startIoEvent createIoEvent c.fd
      (if sslOpen then Mask.READ.union Mask.WRITE else Mask.READ) }

def TCPConnection.start (s : Socket) (now : ℕ) (sslOpen : Bool) : TCPConnection :=
  { TCPConnection.new s with toConnection := (Connection.new s).start now sslOpen }

structure Input (σ : Type) where
  conn : TCPConnection
  mem : σ
  input : List UInt8
  dropped : List UInt8
  frames : List (ℤ × List UInt8)
deriving DecidableEq, Repr

namespace Input

variable {σ : Type}

def init (c : TCPConnection) (m : σ) : Input σ := ⟨c, m, [], [], []⟩

/-- The frame a handler is called for: the state and the `_bytes_expected` bytes
behind the processed ones. -/
def frameOf (c : TCPConnection) : ℤ × List UInt8 :=
  (c.receiveState, (c.ioBuffer.content.drop c.bytesProcessed).take c.bytesExpected)

/-- The bytes the buffer lost at its front. -/
def droppedBy (c c' : TCPConnection) : List UInt8 :=
  c.ioBuffer.content.take (sdslen c.ioBuffer - sdslen c'.ioBuffer)

/-- The bytes a read event takes from the socket. -/
def taken (s : Input σ) (e : ReadEnv) : List UInt8 := (s.conn.sysRead e.src).bytes

/-- `tcp_read_io` on the state's connection. -/
def read (H : Handler σ) (s : Input σ) (e : ReadEnv) : Option ReadIo :=
  tcpReadIo (fun c => (H s.mem c).2) e s.conn

/-- A read event that leaves the connection open. -/
def step (H : Handler σ) (s : Input σ) (e : ReadEnv) : Option (Input σ) :=
  match s.read H e with
  | some (.opened c none) => some { s with conn := c, input := s.input ++ s.taken e }
  | some (.opened c (some c₁)) =>
    some
      { conn := c
        mem := (H s.mem c₁).1
        input := s.input ++ s.taken e
        dropped := s.dropped ++ droppedBy c₁ c
        frames := s.frames ++ [frameOf c₁] }
  | some (.closed _) => none
  | none => none

end Input

end Spigeon
