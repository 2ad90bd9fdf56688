import Spigeon.Spec.Worker

/-!
# Reply buffers

`add_reply` hands a buffer over to the worker, which gives it back with `zfree`: the write
loops free a reply they have finished, and `~TCPConnection` frees what is left on the
list. `~UDPConnection` has an empty body.

A `Ledger` is a worker with an account for each of its connections: the buffers given to
it, what its socket accepted, and the buffers freed, in this order. The accounts only
serve the statements.
-/

namespace Spigeon

open CInt Lifetime

/-- The reply buffers of one connection. -/
structure Account where
  given : List Slice
  /-- the bytes of a TCP write event, the bytes of one write on UDP -/
  sent : List (List UInt8)
  freed : List Slice
deriving DecidableEq, Repr

namespace Account

def empty : Account := ⟨[], [], []⟩

def add (a b : Account) : Account := ⟨a.given ++ b.given, a.sent ++ b.sent, a.freed ++ b.freed⟩

/-- The destructor of the connection frees some buffers. -/
def close (a : Account) (freed : List Slice) : Account := { a with freed := a.freed ++ freed }

end Account

/-- The buffers that the destructor of a connection frees. -/
def Conn.destroy : Conn → List Slice
  | .tcp c => c.replyList
  | .udp _ => []

def Call.reply : Call → Option Slice
  | .addReply r => some r
  | _ => none

/-- The replies that a handler adds before it returns. -/
def Answer.replies : Answer → List Slice
  | .leave calls _ => calls.filterMap Call.reply
  | .close => []
  | .remove => []

/-- What the socket accepted with each write of the loop of `udp_write_io`. -/
def udpSent (c : UDPConnection) : List Sink → List (List UInt8)
  | [] => []
  | k :: ks =>
    match c.replyList with
    | [] => []
    | reply :: rest =>
      let out := sysWrite k reply.data.length
      reply.data.take out.count ::
        if toSize (socketWrite out) = reply.data.length then
          udpSent { c with replyList := rest, replyListSize := c.replyListSize - 1 } ks
        else udpSent c ks

namespace Worker

/-- What a task adds to the account of the connection it finds. -/
def deals (w : Worker) : Task → Option (ℕ × Account)
  | .readIo fd env =>
    (w.lookup fd).bind fun id =>
      (w.objs[id]?).bind fun
        | .tcp c =>
          match tcpRecv ⟨env.fill, env.stream, w.now⟩ c with
          | some (.ok c₁) => if c₁.ready then some (id, ⟨env.answer.replies, [], []⟩) else none
          | _ => none
        | .udp _ => some (id, ⟨env.answer.replies, [], []⟩)
  | .writeIo fd ks =>
    (w.lookup fd).bind fun id =>
      (w.objs[id]?).map fun
        | .tcp c => (id, ⟨[], [(Spigeon.tcpWriteIo w.now ks c).sent], (Spigeon.tcpWriteIo w.now ks c).freed⟩)
        | .udp c => (id, ⟨[], udpSent c ks, (Spigeon.udpWriteIo w.now ks c).freed⟩)
  | _ => none

/-- What an event adds to the account of a connection. -/
def dealt (w : Worker) : WorkerEvent → Option (ℕ × Account)
  | .reply id r => some (id, ⟨[r], [], []⟩)
  | .next => w.todo.head?.bind w.deals
  | _ => none

/-- The step from `w` to `w'` removed the connection. -/
def Removed (w w' : Worker) (id : ℕ) : Prop := Act.drop id ∈ w'.acts.drop w.acts.length

instance (w w' : Worker) (id : ℕ) : Decidable (w.Removed w' id) := inferInstanceAs (Decidable (_ ∈ _))

end Worker

structure Ledger where
  worker : Worker
  accounts : ℕ → Account

namespace Ledger

def init (connectionTimeout : ℕ) (sslOpen : Bool) (now : ℕ) : Ledger :=
  ⟨Worker.init connectionTimeout sslOpen now, fun _ => Account.empty⟩

/-- The accounts after an entry. -/
def enter (accounts : ℕ → Account) : Option (ℕ × Account) → ℕ → Account
  | none => accounts
  | some (id, b) => fun i => if i = id then (accounts i).add b else accounts i

/-- The accounts after the destructors of the connections removed. -/
def settle (w w' : Worker) (accounts : ℕ → Account) (i : ℕ) : Account :=
  if w.Removed w' i then (accounts i).close ((w'.objs[i]?).elim [] Conn.destroy) else accounts i

def step (l : Ledger) (e : WorkerEvent) : Option Ledger :=
  (l.worker.step e).map fun w => ⟨w, settle l.worker w (enter l.accounts (l.worker.dealt e))⟩

end Ledger

end Spigeon
