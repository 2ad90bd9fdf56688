import Spigeon.Lib.Memory
import Spigeon.Spec.Output

/-!
# The echo server

`examples/demo/simple-tcp-server/simple_worker.cpp` with the header of `util/nshead.h`, on one
connection of the framework. A request is a header of 36 bytes, which has a magic number
and the length of the body, and the body. The worker answers with a copy of the request.

Of `nshead_t` only the two fields that the worker reads are here. Integers stand in it with their
low byte first.
-/

namespace Spigeon

/-- `sizeof(nshead_t)`. -/
def nsheadSize : ℕ := 36

def NSHEAD_MAGICNUM : ℕ := 0xfb709394

/-- An `unsigned int` at an offset of a block. -/
def loadUint (b : List UInt8) (offset : ℕ) : ℕ := Memory.load (fun i => b.getD i 0) offset 4

/-- `((nshead_t*)b)->magic_num`. -/
def magicNum (b : List UInt8) : ℕ := loadUint b 24

/-- `((nshead_t*)b)->body_len`. -/
def nsheadBodyLen (b : List UInt8) : ℕ := loadUint b 32

theorem nsheadBodyLen_lt (b : List UInt8) : nsheadBodyLen b < 2 ^ 32 := by
  have hload := Memory.load_lt (fun i => b.getD i 0) 32 4
  unfold nsheadBodyLen loadUint
  omega

namespace SimpleWorker

def STATE_IDLE : ℤ := 0

def STATE_HEAD : ℤ := 1

def STATE_BODY : ℤ := 2

/-- `process_request`: the reply is a copy of `header` and `body` in a block of its own. -/
def processRequest (addr : ℕ) (header body : List UInt8) (h : (header ++ body).length < 2 ^ 64) : Call :=
  .addReply ⟨addr, header ++ body, h⟩

theorem request_size_lt (b : List UInt8) :
    (b.take nsheadSize ++ (b.drop nsheadSize).take (nsheadBodyLen b)).length < 2 ^ 64 := by
  have hlen := nsheadBodyLen_lt b
  have hhead : (b.take nsheadSize).length ≤ nsheadSize := List.length_take_le _ _
  have hbody : ((b.drop nsheadSize).take (nsheadBodyLen b)).length ≤ nsheadBodyLen b := List.length_take_le _ _
  have hsize : nsheadSize = 36 := rfl
  rw [List.length_append]
  omega

/-- `process_io_buffer`. The memory of the handler is the address of the next block that `zmalloc`
returns. -/
def processIoBuffer : Handler ℕ := fun next c =>
  let b := c.ioBuffer.buf
  if c.receiveState = STATE_IDLE then (next, [.reset STATE_HEAD nsheadSize], WORKER_OK)
  else if c.receiveState = STATE_HEAD then
    if magicNum b ≠ NSHEAD_MAGICNUM then (next, [], WORKER_ERROR)
    else (next, [.expectNext STATE_BODY (nsheadBodyLen b)], WORKER_OK)
  else if c.receiveState = STATE_BODY then
    (next + 1,
      [processRequest next (b.take nsheadSize) ((b.drop nsheadSize).take (nsheadBodyLen b)) (request_size_lt b),
        .shrinkProcessed STATE_HEAD nsheadSize],
      WORKER_OK)
  else (next, [], WORKER_OK)

end SimpleWorker

/-- One connection of the server: the connection and the allocator, and for the statements the bytes
read so far and the bytes that the socket accepted. -/
structure Echo where
  conn : TCPConnection
  next : ℕ
  input : List UInt8
  accepted : List UInt8
  closed : Bool
deriving DecidableEq, Repr

inductive EchoEvent where
  | read (e : ReadEnv)
  | write (now : ℕ) (answers : List Sink)

namespace Echo

def init (c : TCPConnection) (next : ℕ) : Echo := ⟨c, next, [], [], false⟩

/-- The connection after a read event with these bytes. The handler has seen `c₁` if there was a whole frame. -/
def afterRead (s : Echo) (bs : List UInt8) : ReadIo → Echo
  | .closed _ => { s with input := s.input ++ bs, closed := true }
  | .opened c none => { s with conn := c, input := s.input ++ bs }
  | .opened c (some c₁) =>
    { s with conn := c, next := (SimpleWorker.processIoBuffer s.next c₁).1, input := s.input ++ bs }

/-- A read or write event. `none` is a write outside the buffer or a failed assertion, or an event on
a closed connection. -/
def step (s : Echo) (ev : EchoEvent) : Option Echo :=
  if s.closed then none
  else
    match ev with
    | .read e =>
      (tcpReadIo (fun c => (SimpleWorker.processIoBuffer s.next c).2) e s.conn).map
        (s.afterRead (s.conn.sysRead e.src).bytes)
    | .write now ks =>
      let w := tcpWriteIo now ks s.conn
      some { s with conn := w.conn, accepted := s.accepted ++ w.sent, closed := decide (w.stop = .failed) }

end Echo

/-! ### What the server is for -/

/-- The stream starts with a whole request. -/
def StartsRequest (bs : List UInt8) : Prop :=
  nsheadSize ≤ bs.length ∧ magicNum bs = NSHEAD_MAGICNUM ∧ nsheadSize + nsheadBodyLen bs ≤ bs.length

instance (bs : List UInt8) : Decidable (StartsRequest bs) := inferInstanceAs (Decidable (_ ∧ _ ∧ _))

/-- The requests that a stream consists of, up to the first that is not whole. -/
def requests (bs : List UInt8) : List (List UInt8) :=
  if _h : StartsRequest bs then
    bs.take (nsheadSize + nsheadBodyLen bs) :: requests (bs.drop (nsheadSize + nsheadBodyLen bs))
  else []
termination_by bs.length
decreasing_by
  have hsize : nsheadSize = 36 := rfl
  rw [List.length_drop]
  have := _h.1
  omega

end Spigeon
