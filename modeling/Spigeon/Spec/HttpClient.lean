import Spigeon.Lib.CInt
import Mathlib.Logic.Function.Basic

/-!
# The HTTP client

`EvHttpClient` of `deps/evhttpclient`, which `HttpClient` of `client/http_client.cpp` wraps: requests, the
connections they are sent on, the pool, and the watchers and timers in the event loop. A pointer to a request or
to a connection is its number. An access to one that was deleted is `none`, and so are a write behind the buffer
of `readCb`, a failed assertion of the parser, a call of a callback that is `NULL` and the signal `SIGPIPE`,
which nothing in the repository ignores.

The parser is known by its callbacks: `http_parser_execute` on some bytes is the list of callbacks it would
make. A callback of the user may make new requests; they are part of the event in which it is called.
-/

namespace Spigeon

/-- `ResponseInfo`, without the time it took. The headers are those of a `std::map`. -/
structure ResponseInfo where
  timeout : Bool := false
  code : ℤ := 0
  headers : List (List UInt8 × List UInt8) := []
  response : List UInt8 := []
deriving DecidableEq, Repr

/-- `headers[field] = value`. -/
def ResponseInfo.setHeader (r : ResponseInfo) (field value : List UInt8) : ResponseInfo :=
  { r with headers := r.headers.filter (fun h => h.1 ≠ field) ++ [(field, value)] }

/-- `EvHttpClientCallback`: no function, `noOpCb`, or one of the user. -/
inductive Callback
  | null
  | noOp
  | user
deriving DecidableEq, Repr

/-- `RequestInfo`. -/
structure RequestInfo where
  conn : Option ℕ
  cb : Callback
  requestString : List UInt8
  response : ResponseInfo := {}
deriving DecidableEq, Repr

inductive HeaderState
  | field
  | value
  | done
deriving DecidableEq, Repr

/-- `HttpConn`. `failed` says that the parser is in an error state. `wire` is what the socket has accepted since
the connection was taken for its request. -/
structure HttpConn where
  request : Option ℕ := none
  requestBytesSent : ℕ := 0
  headerState : HeaderState := .field
  headerField : List UInt8 := []
  headerValue : List UInt8 := []
  body : List UInt8 := []
  messageBegun : Bool := false
  messageComplete : Bool := false
  responseSent : Bool := false
  isNew : Bool := true
  failed : Bool := false
  wire : List UInt8 := []
deriving DecidableEq, Repr

/-- What `last_error` tells, with the `errno` it gives the text of. -/
inductive ClientError
  | socket (errno : ℤ)
  | connect (errno : ℤ)
  | writeEvent (errno : ℤ)
  | readEvent (errno : ℤ)
  | send (errno : ℤ)
  | recv (errno : ℤ)
  | unknown
deriving DecidableEq, Repr

/-- What a callback of the user is given. -/
inductive Delivery
  | error (e : ClientError)
  | response (r : ResponseInfo)
deriving DecidableEq, Repr

/-- The client and the event loop. `calls` are the callbacks of the user, by request; `closed` are the
connections whose sockets were closed, and `leaked` those that were deleted with an open socket. -/
structure EvHttpClient where
  conns : ℕ → Option HttpConn
  requests : ℕ → Option RequestInfo
  nextConn : ℕ
  nextRequest : ℕ
  connections : List ℕ
  initNumConns : ℤ
  blockSize : ℕ
  timed : Bool
  lastError : Option ClientError
  writeOn : ℕ → Bool
  readOn : ℕ → Bool
  timerOn : ℕ → Bool
  calls : List (ℕ × Delivery)
  closed : List ℕ
  leaked : List ℕ

/-- What `socket` and `connect` do for a new connection. `EINPROGRESS` is a success. -/
inductive Dial
  | socketFails (errno : ℤ)
  | connectFails (errno : ℤ)
  | connects
deriving DecidableEq, Repr

/-- What the user calls. `dial` is for the connection that may have to be made. -/
inductive UserCall
  | makeRequest (cb : Callback) (requestString : List UInt8) (dial : Dial)
  | setTimeout (timed : Bool)
deriving DecidableEq, Repr

namespace EvHttpClient

open Function (update)

def setConn (s : EvHttpClient) (id : ℕ) (k : HttpConn) : EvHttpClient :=
  { s with conns := update s.conns id (some k) }

def setRequest (s : EvHttpClient) (r : ℕ) (q : RequestInfo) : EvHttpClient :=
  { s with requests := update s.requests r (some q) }

def deleteRequest (s : EvHttpClient) (r : ℕ) : EvHttpClient := { s with requests := update s.requests r none }

/-- `ev_io_stop` of both watchers. -/
def stopWatchers (s : EvHttpClient) (id : ℕ) : EvHttpClient :=
  { s with writeOn := update s.writeOn id false, readOn := update s.readOn id false }

def stopTimer (s : EvHttpClient) (r : ℕ) : EvHttpClient := { s with timerOn := update s.timerOn r false }

/-! ### Connections -/

def createConn (s : EvHttpClient) : Dial → Option ℕ × EvHttpClient
  | .socketFails errno => (none, { s with lastError := some (.socket errno) })
  | .connectFails errno =>
    (none, { s with
      lastError := some (.connect errno), nextConn := s.nextConn + 1, leaked := s.leaked ++ [s.nextConn] })
  | .connects => (some s.nextConn, { s.setConn s.nextConn {} with nextConn := s.nextConn + 1 })

def destroyConn (s : EvHttpClient) (id : ℕ) : Option EvHttpClient := do
  let _ ← s.conns id
  some { s.stopWatchers id with conns := update s.conns id none, closed := s.closed ++ [id] }

/-- `HttpConn::resetState`, which deletes a request that is still there. -/
def resetState (s : EvHttpClient) (id : ℕ) : Option EvHttpClient := do
  let k ← s.conns id
  let s ←
    match k.request with
    | none => some s
    | some r => do
      let _ ← s.requests r
      some (s.deleteRequest r)
  some (s.setConn id { isNew := false })

def getConn (s : EvHttpClient) (dial : Dial) : Option (Option ℕ × EvHttpClient) :=
  match s.connections with
  | [] => some (s.createConn dial)
  | id :: rest => do
    let s ← { s with connections := rest }.resetState id
    some (some id, s)

/-- `connections.size() < init_num_conns` compares as `size_t`. -/
def returnConn (s : EvHttpClient) (id : ℕ) : Option EvHttpClient := do
  let _ ← s.conns id
  let s := s.stopWatchers id
  if s.connections.length < CInt.toSize s.initNumConns then
    some { s with connections := s.connections ++ [id] }
  else s.destroyConn id

/-! ### Requests -/

/-- The request `r` goes to the connection, which is watched for writing. -/
def attach (s : EvHttpClient) (r id : ℕ) : Option EvHttpClient := do
  let q ← s.requests r
  let k ← s.conns id
  let s := (s.setRequest r { q with conn := some id }).setConn id { k with request := some r }
  some { s with writeOn := update s.writeOn id true }

/-- `makeRequest`. It returns -1 if there is no connection. -/
def makeRequest (s : EvHttpClient) (cb : Callback) (requestString : List UInt8) (dial : Dial) :
    Option (ℤ × EvHttpClient) := do
  let (conn, s) ← { s with lastError := none }.getConn dial
  match conn with
  | none => some (-1, s)
  | some id => do
    let r := s.nextRequest
    let q : RequestInfo := { conn := none, cb := if cb = .null then .noOp else cb, requestString := [] }
    -- `request->cb = cb` follows behind the test for `NULL`
    let q := { q with cb := cb, requestString := requestString }
    let s := { s.setRequest r q with nextRequest := r + 1 }
    let s ← s.attach r id
    some (0, if s.timed then { s with timerOn := update s.timerOn r true } else s)

def userCall (s : EvHttpClient) : UserCall → Option EvHttpClient
  | .makeRequest cb requestString dial => (s.makeRequest cb requestString dial).map Prod.snd
  | .setTimeout timed => some { s with lastError := none, timed := timed }

/-- `request->cb(...)`. The function of the user makes the calls `again`. -/
def callback (s : EvHttpClient) (r : ℕ) (d : Delivery) (again : List UserCall) : Option EvHttpClient := do
  let q ← s.requests r
  let s := { s with calls := s.calls ++ [(r, d)] }
  match q.cb with
  | .null => none
  | .noOp => some s
  | .user => again.foldlM userCall s

def finalizeTimeout (s : EvHttpClient) (r : ℕ) (again : List UserCall) : Option EvHttpClient := do
  let s := s.stopTimer r
  let q ← s.requests r
  let s ← s.callback r (.response { q.response with timeout := true, code := 0 }) again
  let _ ← s.requests r
  some (s.deleteRequest r)

def finalizeError (s : EvHttpClient) (r : ℕ) (again : List UserCall) : Option EvHttpClient := do
  let s := s.stopTimer r
  let e := s.lastError.getD .unknown
  let s := { s with lastError := some e }
  let _ ← s.requests r
  let s ← s.callback r (.error e) again
  let _ ← s.requests r
  some (s.deleteRequest r)

/-- `destroyConn(conn); request->conn = NULL;` -/
def dropConn (s : EvHttpClient) (r id : ℕ) : Option EvHttpClient := do
  let s ← s.destroyConn id
  let q ← s.requests r
  some (s.setRequest r { q with conn := none })

def retryRequest (s : EvHttpClient) (r : ℕ) (dial : Dial) (again : List UserCall) : Option EvHttpClient := do
  let q ← s.requests r
  let s ←
    match q.conn with
    | none => some s
    | some id => s.dropConn r id
  let (conn, s) ← s.getConn dial
  match conn with
  | none => s.finalizeError r again
  | some id => s.attach r id

/-- What `writeCb` and `readCb` do when the socket fails: an error on a new connection, another try on an old
one. -/
def connFailed (s : EvHttpClient) (r id : ℕ) (k : HttpConn) (e : ClientError) (dial : Dial)
    (again : List UserCall) :
    Option EvHttpClient :=
  if k.isNew then do
    let s ← { s with lastError := some e }.dropConn r id
    s.finalizeError r again
  else do
    let s ← s.dropConn r id
    s.retryRequest r dial again

/-! ### The parser -/

/-- The callbacks of the parser. -/
inductive ParserCall
  | messageBegin
  | headerField (at_ : List UInt8)
  | headerValue (at_ : List UInt8)
  | headersComplete
  | body (at_ : List UInt8)
  | messageComplete (statusCode : ℤ)
deriving DecidableEq, Repr

def ParserCall.isComplete : ParserCall → Bool
  | .messageComplete _ => true
  | _ => false

def flushHeaders (s : EvHttpClient) (id : ℕ) (k : HttpConn) : Option EvHttpClient := do
  let r ← k.request
  let q ← s.requests r
  let s := s.setRequest r { q with response := q.response.setHeader k.headerField k.headerValue }
  some (s.setConn id { k with headerField := [], headerValue := [] })

/-- `HttpConn::messageCompleteCb`. -/
def messageCompleteCb (s : EvHttpClient) (id : ℕ) (k : HttpConn) (statusCode : ℤ) (again : List UserCall) :
    Option EvHttpClient := do
  let r ← k.request
  let q ← s.requests r
  let s := (s.stopTimer r).setConn id { k with messageComplete := true }
  let response := { q.response with response := k.body, timeout := false, code := statusCode }
  let s := s.setRequest r { q with response := response }
  let s ← s.callback r (.response response) again
  let k ← s.conns id
  let r ← k.request
  let _ ← s.requests r
  some ((s.deleteRequest r).setConn id { k with responseSent := true, request := none })

/-- One callback of the parser. `true` stops the parser. -/
def parserCall (s : EvHttpClient) (id : ℕ) (again : List UserCall) : ParserCall → Option (Bool × EvHttpClient)
  | .messageBegin => do
    let k ← s.conns id
    if k.messageBegun ∨ k.request = none then some (true, s)
    else some (false, s.setConn id { k with messageBegun := true })
  | .headerField bs => do
    let k ← s.conns id
    if k.headerState = .done then some (true, s)
    else do
      let s ← if k.headerState = .value then s.flushHeaders id k else some s
      let k ← s.conns id
      some (false, s.setConn id { k with headerState := .field, headerField := k.headerField ++ bs })
  | .headerValue bs => do
    let k ← s.conns id
    if k.headerState = .done then some (true, s)
    else some (false, s.setConn id { k with headerState := .value, headerValue := k.headerValue ++ bs })
  | .headersComplete => do
    let k ← s.conns id
    let s ← s.flushHeaders id { k with headerState := .done }
    some (false, s)
  | .body bs => do
    let k ← s.conns id
    some (false, s.setConn id { k with body := k.body ++ bs })
  | .messageComplete statusCode => do
    let k ← s.conns id
    let s ← s.messageCompleteCb id k statusCode again
    some (false, s)

def fail (s : EvHttpClient) (id : ℕ) : Option EvHttpClient := do
  let k ← s.conns id
  some (s.setConn id { k with failed := true })

/-- The callbacks one after the other, up to one that stops the parser. `malformed` says that the parser then
finds an error in the bytes. -/
def parserCalls (s : EvHttpClient) (id : ℕ) (again : List UserCall) (malformed : Bool) :
    List ParserCall → Option EvHttpClient
  | [] => if malformed then s.fail id else some s
  | c :: cs => do
    let (stop, s) ← s.parserCall id again c
    if stop then s.fail id else parserCalls s id again malformed cs

/-- `http_parser_execute`, which does nothing in an error state. -/
def parserExecute (s : EvHttpClient) (id : ℕ) (again : List UserCall) (malformed : Bool) (cs : List ParserCall) :
    Option EvHttpClient := do
  let k ← s.conns id
  if k.failed then some s else s.parserCalls id again malformed cs

/-! ### Events -/

/-- What `recv` gives: so many bytes, which the parser reads as these callbacks. -/
structure Received where
  count : ℕ
  parsed : List ParserCall
  malformed : Bool
deriving DecidableEq, Repr

inductive Event
  | call (u : UserCall)
  /-- The socket is writable. `sent` is what `send` accepts. -/
  | writable (id : ℕ) (sent : Except ℤ ℕ) (dial : Dial) (again : List UserCall)
  /-- `EV_ERROR`: `fd_kill` of the loop has stopped the watchers of the socket before the callback. -/
  | writeError (id : ℕ) (errno : ℤ)
  | readable (id : ℕ) (received : Except ℤ Received) (dial : Dial) (again : List UserCall)
  | readError (id : ℕ) (errno : ℤ)
  | timeout (r : ℕ) (again : List UserCall)

/-- The peer has closed. -/
def EPIPE : ℤ := 32

def writeCb (s : EvHttpClient) (id : ℕ) (sent : Except ℤ ℕ) (dial : Dial) (again : List UserCall) :
    Option EvHttpClient := do
  let k ← s.conns id
  let r ← k.request
  let q ← s.requests r
  match sent with
  | .error errno =>
    -- `send` without `MSG_NOSIGNAL`
    if errno = EPIPE then none else s.connFailed r id k (.send errno) dial again
  | .ok n =>
    let bytes := (q.requestString.drop k.requestBytesSent).take n
    let s := s.setConn id { k with requestBytesSent := k.requestBytesSent + n, wire := k.wire ++ bytes }
    if k.requestBytesSent + n = q.requestString.length then
      some { s with writeOn := update s.writeOn id false, readOn := update s.readOn id true }
    else some s

def readCb (s : EvHttpClient) (id : ℕ) (received : Except ℤ Received) (dial : Dial) (again : List UserCall) :
    Option EvHttpClient := do
  let k ← s.conns id
  match received with
  | .error errno => do
    let r ← k.request
    s.connFailed r id k (.recv errno) dial again
  | .ok rcv =>
    -- `buffer[received] = 0`
    if rcv.count < s.blockSize then do
      let s ← s.parserExecute id again rcv.malformed rcv.parsed
      let k ← s.conns id
      if k.messageComplete then s.returnConn id else some s
    else none

def timeoutCb (s : EvHttpClient) (r : ℕ) (again : List UserCall) : Option EvHttpClient := do
  let q ← s.requests r
  match q.conn with
  | none => s.finalizeTimeout r again
  | some id => do
    let k ← s.conns id
    -- `http_parser_pause` asserts that there was no error
    if k.failed then none
    else do
      let s ← (s.stopWatchers id).dropConn r id
      s.finalizeTimeout r again

def step (s : EvHttpClient) : Event → Option EvHttpClient
  | .call u => s.userCall u
  | .writable id sent dial again => s.writeCb id sent dial again
  | .writeError id errno => some { s.stopWatchers id with lastError := some (.writeEvent errno) }
  | .readable id received dial again => s.readCb id received dial again
  | .readError id errno => some { s.stopWatchers id with lastError := some (.readEvent errno) }
  | .timeout r again => s.timeoutCb r again

/-! ### The beginning and the end -/

/-- The members after the constructor. -/
def new (timed : Bool) (initNumConns : ℤ) (blockSize : ℕ) : EvHttpClient where
  conns := fun _ => none
  requests := fun _ => none
  nextConn := 0
  nextRequest := 0
  connections := []
  initNumConns := initNumConns
  blockSize := blockSize
  timed := timed
  lastError := none
  writeOn := fun _ => false
  readOn := fun _ => false
  timerOn := fun _ => false
  calls := []
  closed := []
  leaked := []

/-- `initConnPool`: it stops at the first connection that cannot be made. -/
def initConnPool (dials : ℕ → Dial) : ℕ → EvHttpClient → EvHttpClient
  | 0, s => s
  | n + 1, s =>
    match s.createConn (dials n) with
    | (none, s) => s
    | (some id, s) => initConnPool dials n { s with connections := s.connections ++ [id] }

/-- The client after `init`, whose host name can be resolved. -/
def start (timed : Bool) (initNumConns : ℤ) (blockSize : ℕ) (dials : ℕ → Dial) : EvHttpClient :=
  initConnPool dials initNumConns.toNat (new timed initNumConns blockSize)

/-- `~EvHttpClient`. -/
def destroy (s : EvHttpClient) : Option EvHttpClient :=
  s.connections.foldlM destroyConn { s with connections := [] }

/-! ### What can happen -/

/-- The order of the callbacks of the parser: headers behind the beginning, a body behind the headers, and
behind a whole message only the beginning of another one. -/
def Possible (k : HttpConn) : ParserCall → Prop
  | .messageBegin => True
  | .headerField _ | .headerValue _ => k.messageBegun = true ∧ k.messageComplete = false
  | .headersComplete => k.messageBegun = true ∧ k.headerState ≠ .done ∧ k.messageComplete = false
  | .body _ | .messageComplete _ => k.headerState = .done ∧ k.messageComplete = false

instance (k : HttpConn) : ∀ c, Decidable (Possible k c)
  | .messageBegin => isTrue trivial
  | .headerField _ => inferInstanceAs (Decidable (_ ∧ _))
  | .headerValue _ => inferInstanceAs (Decidable (_ ∧ _))
  | .headersComplete => inferInstanceAs (Decidable (_ ∧ _))
  | .body _ => inferInstanceAs (Decidable (_ ∧ _))
  | .messageComplete _ => inferInstanceAs (Decidable (_ ∧ _))

/-- The parser makes its callbacks in order, as long as none of them stops it. -/
def InOrder (s : EvHttpClient) (id : ℕ) (again : List UserCall) : List ParserCall → Prop
  | [] => True
  | c :: cs =>
    (∀ k ∈ s.conns id, Possible k c) ∧ ∀ x ∈ s.parserCall id again c, x.1 = false → InOrder x.2 id again cs

instance decidableInOrder (id : ℕ) (again : List UserCall) :
    ∀ (cs : List ParserCall) (s : EvHttpClient), Decidable (s.InOrder id again cs)
  | [], _ => isTrue trivial
  | _ :: cs, _ =>
    have := decidableInOrder id again cs
    inferInstanceAs (Decidable (_ ∧ _))

/-- The parser does not come to the end of the message. -/
def Incomplete (s : EvHttpClient) (id : ℕ) (again : List UserCall) : List ParserCall → Prop
  | [] => True
  | c :: cs => c.isComplete = false ∧ ∀ x ∈ s.parserCall id again c, x.1 = false → Incomplete x.2 id again cs

/-- The events that the loop can have: of watchers and timers that are active, with no more sent than there was
to send and no more received than asked for. -/
def Enabled (s : EvHttpClient) : Event → Prop
  | .call _ => True
  | .writable id sent _ _ =>
    s.writeOn id = true ∧ ∀ n ∈ sent.toOption, ∀ k ∈ s.conns id, ∀ r ∈ k.request, ∀ q ∈ s.requests r,
      k.requestBytesSent + n ≤ q.requestString.length
  | .writeError id _ => s.writeOn id = true
  | .readable id received _ again =>
    s.readOn id = true ∧ ∀ rcv ∈ received.toOption, 0 < rcv.count ∧ rcv.count ≤ s.blockSize ∧
      ∀ k ∈ s.conns id, k.failed = false → s.InOrder id again rcv.parsed
  | .readError id _ => s.readOn id = true
  | .timeout r _ => s.timerOn r = true

instance (s : EvHttpClient) : ∀ e, Decidable (s.Enabled e)
  | .call _ => isTrue trivial
  | .writable _ _ _ _ => inferInstanceAs (Decidable (_ ∧ _))
  | .writeError _ _ => inferInstanceAs (Decidable (_ = _))
  | .readable _ _ _ _ => inferInstanceAs (Decidable (_ ∧ _))
  | .readError _ _ => inferInstanceAs (Decidable (_ = _))
  | .timeout _ _ => inferInstanceAs (Decidable (_ = _))

/-- When a socket fails, a request without a callback is not given the error: its connection is an old one, and
there is another one for it. -/
def Retries (s : EvHttpClient) (id : ℕ) (dial : Dial) : Prop :=
  ∀ k ∈ s.conns id, ∀ r ∈ k.request, ∀ q ∈ s.requests r, q.cb = .null →
    k.isNew = false ∧ (s.connections ≠ [] ∨ dial = .connects)

/-- The events that the client can stand. `send` does not find the connection closed by the peer, and `recv`
does not fill the buffer; a request whose answer the parser has refused does not time out; and a request without
a callback does not fail, is not answered and does not time out. -/
def Safe (s : EvHttpClient) : Event → Prop
  | .writable id (.error errno) dial _ => errno ≠ EPIPE ∧ s.Retries id dial
  | .readable id (.error _) dial _ => s.Retries id dial
  | .readable id (.ok rcv) _ again =>
    rcv.count ≠ s.blockSize ∧ ∀ k ∈ s.conns id, k.failed = false → ∀ r ∈ k.request, ∀ q ∈ s.requests r,
      q.cb = .null → s.Incomplete id again rcv.parsed
  | .timeout r _ => ∀ q ∈ s.requests r, q.cb ≠ .null ∧ ∀ id ∈ q.conn, ∀ k ∈ s.conns id, k.failed = false
  | _ => True

/-! ### What is promised -/

/-- The requests whose callbacks were made. -/
def calledBack (s : EvHttpClient) : List ℕ := s.calls.map Prod.fst

/-- The request is on this connection, which has no other one. What the socket has accepted is a beginning of
the request, at most one of the two watchers is active, and it is the one for reading only when everything was
sent. Behind an error of the loop none is active. -/
def Pending (s : EvHttpClient) (r id : ℕ) : Prop :=
  ∃ q k, s.requests r = some q ∧ q.conn = some id ∧ s.conns id = some k ∧ k.request = some r ∧
    k.wire <+: q.requestString ∧ (s.writeOn id = true → s.readOn id = false) ∧
    (s.readOn id = true → k.wire = q.requestString)

/-- The connection is in the pool, without a request and with both watchers stopped. -/
def Pooled (s : EvHttpClient) (id : ℕ) : Prop :=
  id ∈ s.connections ∧ s.writeOn id = false ∧ s.readOn id = false ∧ ∃ k, s.conns id = some k ∧ k.request = none

/-- The books of the client. -/
structure Accounted (s : EvHttpClient) : Prop where
  /-- A request that was accepted waits on its connection, or was called back once and deleted. -/
  request : ∀ r, r < s.nextRequest →
    (∃ id, s.Pending r id) ∧ r ∉ s.calledBack ∨
      s.requests r = none ∧ s.timerOn r = false ∧ s.calledBack.count r = 1
  /-- A connection is in the pool, or is the one of a request, or its socket was closed once, or was leaked. -/
  conn : ∀ id, id < s.nextConn →
    (s.Pooled id ∨ id ∉ s.connections ∧ ∃ r, s.Pending r id) ∧ id ∉ s.closed ∧ id ∉ s.leaked ∨
      s.conns id = none ∧ s.writeOn id = false ∧ s.readOn id = false ∧
        (s.closed.count id = 1 ∧ id ∉ s.leaked ∨ id ∉ s.closed ∧ id ∈ s.leaked)
  pool : s.connections.Nodup ∧ s.connections.length ≤ CInt.toSize s.initNumConns

end EvHttpClient

/-! ### Messages -/

/-- A message that a server sends. -/
structure HttpMessage where
  headers : List (List UInt8 × List UInt8)
  body : List UInt8
  statusCode : ℤ
deriving DecidableEq, Repr

namespace HttpMessage

open EvHttpClient (ParserCall)

/-- The callbacks of the parser for the message, whose texts come in these pieces. -/
def pieces (m : HttpMessage) (headers : List (List (List UInt8) × List (List UInt8))) (body : List (List UInt8)) :
    List ParserCall :=
  .messageBegin :: headers.flatMap (fun h => h.1.map .headerField ++ h.2.map .headerValue) ++ .headersComplete ::
    body.map .body ++ [.messageComplete m.statusCode]

/-- The callbacks tell the message. There is at least one piece of each name and each value. -/
def Told (m : HttpMessage) (cs : List ParserCall) : Prop :=
  ∃ headers body, (∀ h ∈ headers, h.1 ≠ [] ∧ h.2 ≠ []) ∧
    m.headers = headers.map (fun h => (h.1.flatten, h.2.flatten)) ∧ m.body = body.flatten ∧
    cs = m.pieces headers body

/-- What the user is given. A message without headers has one with an empty name, and headers of a first try
stay. -/
def answer (m : HttpMessage) (old : ResponseInfo) : ResponseInfo :=
  { (if m.headers = [] then [([], [])] else m.headers).foldl (fun r h => r.setHeader h.1 h.2) old with
    timeout := false, code := m.statusCode, response := m.body }

end HttpMessage

namespace EvHttpClient

/-- The request is on this connection, and nothing of its answer was read there. -/
def Unread (s : EvHttpClient) (r id : ℕ) (old : ResponseInfo) : Prop :=
  (∃ q ∈ s.requests r, q.conn = some id ∧ q.response = old) ∧
    ∃ k ∈ s.conns id, k.headerState = .field ∧ k.headerField = [] ∧ k.headerValue = [] ∧ k.body = [] ∧
      k.messageBegun = false ∧ k.failed = false

instance (s : EvHttpClient) (r id : ℕ) (old : ResponseInfo) : Decidable (s.Unread r id old) :=
  inferInstanceAs (Decidable (_ ∧ _))

/-- What the parser makes of the bytes that are received on the connection. -/
def Event.parsedOn (id : ℕ) : Event → List ParserCall
  | .readable id' (.ok rcv) _ _ => if id' = id then rcv.parsed else []
  | _ => []

/-- The request does not time out, and its connection does not fail. -/
def Event.Fair (r id : ℕ) : Event → Prop
  | .writable id' (.error _) _ _ => id' ≠ id
  | .readable id' (.error _) _ _ => id' ≠ id
  | .readable id' (.ok rcv) _ _ => id' = id → rcv.malformed = false
  | .timeout r' _ => r' ≠ r
  | _ => True

end EvHttpClient

end Spigeon
