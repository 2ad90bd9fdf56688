import Spigeon.Spec.Input

/-!
# The output side of a TCP connection over a run of replies and write events

A write event is given by what the socket does with its successive writes. An event
whose list of answers ends early stands for a loop seen between two of its
iterations, so a run passes through every moment of every write event.
-/

namespace Spigeon

/-- The connection, the bytes the socket accepted, and all replies as one stream. -/
structure Output where
  conn : TCPConnection
  accepted : List UInt8
  queued : List UInt8
  closed : Bool
deriving DecidableEq, Repr

inductive OutputEvent where
  | addReply (reply : Slice)
  | write (now : ℕ) (answers : List Sink)
deriving DecidableEq, Repr

namespace Output

def init (c : TCPConnection) : Output := ⟨c, [], [], false⟩

/-- A failed write closes the connection; nothing happens on it afterwards. -/
def step (s : Output) (e : OutputEvent) : Option Output :=
  if s.closed then none
  else
    match e with
    | .addReply r => some { s with conn := (Call.addReply r).run s.conn, queued := s.queued ++ r.data }
    | .write now ks =>
      let w := tcpWriteIo now ks s.conn
      some { s with conn := w.conn, accepted := s.accepted ++ w.sent, closed := decide (w.stop = .failed) }

end Output

/-- The rest of the front reply, then the remaining replies. -/
def TCPConnection.unsent (c : TCPConnection) : List UInt8 :=
  match c.replyList with
  | [] => []
  | r :: rest => r.data.drop c.bytesWritten ++ (rest.map Slice.data).flatten

end Spigeon
