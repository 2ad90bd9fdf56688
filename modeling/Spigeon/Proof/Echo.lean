import Spigeon.Spec.Nshead
import Spigeon.Proof.Framing
import Spigeon.Proof.Output
import Spigeon.Proof.Worker

/-!
# The echo server answers what it reads

A client's bytes reach the worker in chunks that the kernel chooses, and the answers leave it in
pieces that the kernel chooses too.

* `requests_append`: whole requests in front of a stream are its first requests.
* `EchoPhase`: what the counters of the connection say about its buffer in each state of the worker.
* `handled`: one call of the worker, which takes at most one request from the buffer.
* `echo_faithful`: over every run of read and write events, what was sent and what is left to send are
  the first requests of the input, and all of them whenever no frame is left waiting.
-/

namespace Spigeon

open Lts SimpleWorker

/-! ## Requests -/

theorem loadUint_append {a : List UInt8} {offset : ℕ} (h : offset + 4 ≤ a.length) (b : List UInt8) :
    loadUint (a ++ b) offset = loadUint a offset := by
  have hbyte : ∀ i, i < a.length → (a ++ b).getD i 0 = a.getD i 0 := by
    intro i hi
    rw [List.getD_eq_getElem?_getD, List.getD_eq_getElem?_getD, List.getElem?_append_left hi]
  unfold loadUint
  simp only [Memory.load]
  rw [hbyte _ (by omega), hbyte _ (by omega), hbyte _ (by omega), hbyte _ (by omega)]

theorem magicNum_append {a : List UInt8} (h : nsheadSize ≤ a.length) (b : List UInt8) :
    magicNum (a ++ b) = magicNum a :=
  loadUint_append (by have : nsheadSize = 36 := rfl; omega) b

theorem bodyLen_append {a : List UInt8} (h : nsheadSize ≤ a.length) (b : List UInt8) :
    nsheadBodyLen (a ++ b) = nsheadBodyLen a :=
  loadUint_append (by have : nsheadSize = 36 := rfl; omega) b

/-- One whole request, and nothing behind it. -/
structure IsRequest (r : List UInt8) : Prop where
  magic : magicNum r = NSHEAD_MAGICNUM
  length : r.length = nsheadSize + nsheadBodyLen r

theorem isRequest_take {bs : List UInt8} (h : StartsRequest bs) :
    IsRequest (bs.take (nsheadSize + nsheadBodyLen bs)) := by
  obtain ⟨hhead, hmagic, hbody⟩ := h
  have hlen : (bs.take (nsheadSize + nsheadBodyLen bs)).length = nsheadSize + nsheadBodyLen bs := by
    rw [List.length_take]; omega
  have hge : nsheadSize ≤ (bs.take (nsheadSize + nsheadBodyLen bs)).length := by omega
  have hsplit := List.take_append_drop (nsheadSize + nsheadBodyLen bs) bs
  have hm := magicNum_append hge (bs.drop (nsheadSize + nsheadBodyLen bs))
  have hb := bodyLen_append hge (bs.drop (nsheadSize + nsheadBodyLen bs))
  rw [hsplit] at hm hb
  exact ⟨hm ▸ hmagic, by rw [hlen, ← hb]⟩

theorem IsRequest.starts {r : List UInt8} (h : IsRequest r) (rest : List UInt8) :
    StartsRequest (r ++ rest) ∧ nsheadSize + nsheadBodyLen (r ++ rest) = r.length := by
  have hlen := h.length
  have hge : nsheadSize ≤ r.length := by omega
  have hm := magicNum_append hge rest
  have hb := bodyLen_append hge rest
  refine ⟨⟨?_, hm.trans h.magic, ?_⟩, ?_⟩
  · rw [List.length_append]; omega
  · rw [List.length_append, hb]; omega
  · rw [hb, hlen]

theorem requests_of_not {bs : List UInt8} (h : ¬ StartsRequest bs) : requests bs = [] := by
  rw [requests, dif_neg h]

theorem requests_cons {r : List UInt8} (h : IsRequest r) (rest : List UInt8) :
    requests (r ++ rest) = r :: requests rest := by
  obtain ⟨hstarts, hlen⟩ := h.starts rest
  rw [requests, dif_pos hstarts, hlen, List.take_left, List.drop_left]

/-- **Whole requests in front of a stream are its first requests.** -/
theorem requests_append {rs : List (List UInt8)} (h : ∀ r ∈ rs, IsRequest r) (rest : List UInt8) :
    requests (rs.flatten ++ rest) = rs ++ requests rest := by
  induction rs with
  | nil => rfl
  | cons r rs ih =>
    rw [List.flatten_cons, List.append_assoc, requests_cons (h r List.mem_cons_self),
      ih fun q hq => h q (List.mem_cons_of_mem _ hq), List.cons_append]

/-! ## The states of the worker -/

/-- What the counters say about the buffer: the first byte is awaited, a header, or the body that
the header at the start of the buffer announces. -/
inductive EchoPhase : Framer UInt8 ℤ → Prop
  | idle : EchoPhase ⟨STATE_IDLE, 0, 1, []⟩
  | head (buf : List UInt8) : EchoPhase ⟨STATE_HEAD, 0, nsheadSize, buf⟩
  | body (buf : List UInt8) (hlen : nsheadSize ≤ buf.length) (hmagic : magicNum buf = NSHEAD_MAGICNUM) :
    EchoPhase ⟨STATE_BODY, nsheadSize, nsheadBodyLen buf, buf⟩

/-- A header keeps its meaning when more bytes come behind it. -/
theorem body_push {buf : List UInt8} (hlen : nsheadSize ≤ buf.length) (bs : List UInt8) :
    (⟨STATE_BODY, nsheadSize, nsheadBodyLen buf, buf⟩ : Framer UInt8 ℤ).push bs =
      ⟨STATE_BODY, nsheadSize, nsheadBodyLen (buf ++ bs), buf ++ bs⟩ := by
  rw [bodyLen_append hlen]
  rfl

theorem EchoPhase.push {f : Framer UInt8 ℤ} (h : EchoPhase f) {bs : List UInt8} (hwait : ¬ (f.push bs).Full) :
    EchoPhase (f.push bs) := by
  cases h with
  | idle =>
    -- one byte would complete the frame
    have hnil : bs = [] := by
      unfold Framer.Full Framer.push at hwait
      simp only [List.nil_append] at hwait
      exact List.length_eq_zero_iff.1 (by omega)
    rw [hnil]
    exact .idle
  | head buf => exact .head _
  | body buf hlen hmagic =>
    rw [body_push hlen]
    exact .body (buf ++ bs) (by rw [List.length_append]; omega) ((magicNum_append hlen bs).trans hmagic)

/-- Nothing that is complete is in the buffer of a connection that waits. -/
theorem EchoPhase.requests_nil {f : Framer UInt8 ℤ} (h : EchoPhase f) (hwait : ¬ f.Full) :
    requests f.buf = [] := by
  apply requests_of_not
  rintro ⟨hhead, -, hbody⟩
  apply hwait
  unfold Framer.Full
  have hsize : nsheadSize = 36 := rfl
  cases h with
  | idle => dsimp only [List.length_nil] at *; omega
  | head buf => dsimp only at *; omega
  | body buf hlen hmagic => exact hbody

/-- No more than the largest body is in the buffer behind the bytes that are processed. -/
def SurplusBounded (f : Framer UInt8 ℤ) : Prop := f.buf.length ≤ f.done + 2 ^ 29

/-! ## One call of the worker -/

/-- The replies of a connection, without the fields that only the reading side uses. -/
structure SameReplies (c c' : TCPConnection) : Prop where
  list : c'.replyList = c.replyList
  size : c'.replyListSize = c.replyListSize
  written : c'.bytesWritten = c.bytesWritten

theorem SameReplies.unsent {c c' : TCPConnection} (h : SameReplies c c') : c'.unsent = c.unsent := by
  unfold TCPConnection.unsent
  rw [h.list, h.written]

theorem SameReplies.replyOK {c c' : TCPConnection} (h : SameReplies c c') (hc : ReplyOK c) : ReplyOK c' :=
  hc.congr h.list h.size h.written

theorem addReply_unsent {c : TCPConnection} (h : ReplyOK c) (r : Slice) :
    ReplyOK ((Call.addReply r).run c) ∧ ((Call.addReply r).run c).unsent = c.unsent ++ r.data := by
  have hout : OutputOK ⟨c, [], c.unsent, false⟩ := ⟨h, rfl⟩
  have hadd := addReply_output_ok hout r
  exact ⟨hadd.toReplyOK, hadd.stream⟩

/-- The part of the buffer that is not in the string does not matter for a header inside it. -/
theorem header_of_content {c : TCPConnection} (hlen : nsheadSize ≤ c.framer.buf.length) :
    magicNum c.ioBuffer.buf = magicNum c.framer.buf ∧
      nsheadBodyLen c.ioBuffer.buf = nsheadBodyLen c.framer.buf := by
  have hsplit : c.framer.buf ++ c.ioBuffer.buf.drop (sdslen c.ioBuffer) = c.ioBuffer.buf :=
    List.take_append_drop _ _
  have hm := magicNum_append hlen (c.ioBuffer.buf.drop (sdslen c.ioBuffer))
  have hb := bodyLen_append hlen (c.ioBuffer.buf.drop (sdslen c.ioBuffer))
  rw [hsplit] at hm hb
  exact ⟨hm, hb⟩

/-- What is left of a call that keeps the connection: the worker took nothing from the buffer, or it
took one request and queued it as a reply. -/
structure Handled (c c' : TCPConnection) (taken : List UInt8) : Prop where
  conn : ConnOK c'
  phase : EchoPhase c'.framer
  surplus : SurplusBounded c'.framer
  reply : ReplyOK c'
  unsent : c'.unsent = c.unsent ++ taken
  split : c.framer.buf = taken ++ c'.framer.buf
  whole : taken = [] ∨ IsRequest taken

theorem handled_idle {c : TCPConnection} {buf : List UInt8} (hc : ConnOK c) (hr : ReplyOK c)
    (hfr : c.framer = ⟨STATE_IDLE, 0, 1, buf⟩) (hfull : c.framer.Full) (hlen : buf.length ≤ 1) (next : ℕ) :
    (processIoBuffer next c).2.2 = WORKER_OK ∧
      Handled c (runCalls c (processIoBuffer next c).2.1) [] := by
  have hst : c.receiveState = STATE_IDLE := congrArg Framer.state hfr
  have hcall : processIoBuffer next c = (next, [.reset STATE_HEAD nsheadSize], WORKER_OK) := by
    unfold processIoBuffer
    exact if_pos hst
  rw [hcall]
  obtain ⟨hok, hmove⟩ := runCalls_one [.reset STATE_HEAD nsheadSize] c hc hfull _ rfl
  have hfr' : (runCalls c [.reset STATE_HEAD nsheadSize]).framer = ⟨STATE_HEAD, 0, nsheadSize, buf⟩ := by
    rw [hmove, hfr]; rfl
  have hsame : SameReplies c (runCalls c [.reset STATE_HEAD nsheadSize]) := ⟨rfl, rfl, rfl⟩
  refine ⟨rfl, hok, ?_, ?_, hsame.replyOK hr, ?_, ?_, Or.inl rfl⟩
  · rw [hfr']; exact .head buf
  · rw [hfr']; unfold SurplusBounded; dsimp only; omega
  · rw [hsame.unsent, List.append_nil]
  · rw [hfr', hfr]; rfl

theorem handled_head {c : TCPConnection} {buf : List UInt8} (hc : ConnOK c) (hr : ReplyOK c)
    (hfr : c.framer = ⟨STATE_HEAD, 0, nsheadSize, buf⟩) (hfull : c.framer.Full)
    (hlen : buf.length ≤ nsheadSize + 2 ^ 29) (next : ℕ)
    (hret : (processIoBuffer next c).2.2 = WORKER_OK) :
    Handled c (runCalls c (processIoBuffer next c).2.1) [] := by
  have hst : c.receiveState = STATE_HEAD := congrArg Framer.state hfr
  have hbuf : c.framer.buf = buf := congrArg Framer.buf hfr
  have hhead : nsheadSize ≤ c.framer.buf.length := by
    have := hfull
    rw [hfr] at this ⊢
    unfold Framer.Full at this
    dsimp only at *
    omega
  obtain ⟨hmeq, hbeq⟩ := header_of_content hhead
  have hmagic : magicNum c.ioBuffer.buf = NSHEAD_MAGICNUM := by
    by_contra hne
    have hbad : processIoBuffer next c = (next, [], WORKER_ERROR) := by
      unfold processIoBuffer
      dsimp only
      rw [if_neg (by rw [hst]; decide), if_pos hst, if_pos hne]
    rw [hbad] at hret
    exact absurd hret (show WORKER_ERROR ≠ WORKER_OK by decide)
  have hcall : processIoBuffer next c = (next, [.expectNext STATE_BODY (nsheadBodyLen buf)], WORKER_OK) := by
    unfold processIoBuffer
    dsimp only
    rw [if_neg (by rw [hst]; decide), if_pos hst, if_neg (not_not.2 hmagic), hbeq, hbuf]
  rw [hcall]
  obtain ⟨hok, hmove⟩ := runCalls_one [.expectNext STATE_BODY (nsheadBodyLen buf)] c hc hfull _ rfl
  have hfr' : (runCalls c [.expectNext STATE_BODY (nsheadBodyLen buf)]).framer =
      ⟨STATE_BODY, nsheadSize, nsheadBodyLen buf, buf⟩ := by
    rw [hmove, hfr]; rfl
  have hsame : SameReplies c (runCalls c [.expectNext STATE_BODY (nsheadBodyLen buf)]) := ⟨rfl, rfl, rfl⟩
  refine ⟨hok, ?_, ?_, hsame.replyOK hr, ?_, ?_, Or.inl rfl⟩
  · rw [hfr']
    exact .body buf (hbuf ▸ hhead) (by rw [← hbuf, ← hmeq]; exact hmagic)
  · rw [hfr']; exact hlen
  · rw [hsame.unsent, List.append_nil]
  · rw [hfr', hfr]; rfl

/-- The reply that the worker copies out of the buffer is the request at its start. -/
theorem reply_copies {c : TCPConnection} (hc : ConnOK c) (hstart : StartsRequest c.framer.buf) :
    c.ioBuffer.buf.take nsheadSize ++ (c.ioBuffer.buf.drop nsheadSize).take (nsheadBodyLen c.ioBuffer.buf) =
      c.framer.buf.take (nsheadSize + nsheadBodyLen c.framer.buf) := by
  obtain ⟨-, hbeq⟩ := header_of_content hstart.1
  have hlen := hstart.2.2
  rw [hc.length_buf] at hlen
  rw [← List.take_add, hbeq]
  show _ = (c.ioBuffer.buf.take (sdslen c.ioBuffer)).take _
  rw [List.take_take, Nat.min_eq_left hlen]

theorem handled_body {c : TCPConnection} {buf : List UInt8} (hc : ConnOK c) (hr : ReplyOK c)
    (hfr : c.framer = ⟨STATE_BODY, nsheadSize, nsheadBodyLen buf, buf⟩) (hfull : c.framer.Full)
    (hhead : nsheadSize ≤ buf.length) (hmagic : magicNum buf = NSHEAD_MAGICNUM)
    (hlen : buf.length ≤ nsheadSize + nsheadBodyLen buf + 2 ^ 29) (next : ℕ) :
    (processIoBuffer next c).2.2 = WORKER_OK ∧
      Handled c (runCalls c (processIoBuffer next c).2.1) (buf.take (nsheadSize + nsheadBodyLen buf)) := by
  have hst : c.receiveState = STATE_BODY := congrArg Framer.state hfr
  have hbuf : c.framer.buf = buf := congrArg Framer.buf hfr
  have hstart : StartsRequest buf := ⟨hhead, hmagic, by have := hfull; rw [hfr] at this; exact this⟩
  have hcopy := reply_copies hc (hbuf.symm ▸ hstart)
  rw [hbuf] at hcopy
  set reply := processRequest next (c.ioBuffer.buf.take nsheadSize)
    ((c.ioBuffer.buf.drop nsheadSize).take (nsheadBodyLen c.ioBuffer.buf))
    (request_size_lt c.ioBuffer.buf) with hreply
  -- the handler adds a copy of the request and drops its bytes
  have hcall : processIoBuffer next c =
      (next + 1, [reply, .shrinkProcessed STATE_HEAD nsheadSize], WORKER_OK) := by
    unfold processIoBuffer
    dsimp only
    rw [if_neg (by rw [hst]; decide), if_neg (by rw [hst]; decide), if_pos hst]
  rw [hcall]
  obtain ⟨hok, hmove⟩ := runCalls_one [reply, .shrinkProcessed STATE_HEAD nsheadSize] c hc hfull
    (.drop STATE_HEAD nsheadSize) rfl
  have hfr' : (runCalls c [reply, .shrinkProcessed STATE_HEAD nsheadSize]).framer =
      ⟨STATE_HEAD, 0, nsheadSize, buf.drop (nsheadSize + nsheadBodyLen buf)⟩ := by
    rw [hmove, hfr]; rfl
  obtain ⟨hadded, hunsent⟩ := addReply_unsent hr ⟨next, _, request_size_lt c.ioBuffer.buf⟩
  have hsame : SameReplies (reply.run c) (runCalls c [reply, .shrinkProcessed STATE_HEAD nsheadSize]) :=
    ⟨rfl, rfl, rfl⟩
  refine ⟨rfl, hok, ?_, ?_, hsame.replyOK hadded, ?_, ?_, Or.inr (isRequest_take hstart)⟩
  · rw [hfr']; exact .head _
  · rw [hfr']
    unfold SurplusBounded
    dsimp only
    rw [List.length_drop]
    omega
  · rw [hsame.unsent, ← hcopy]
    exact hunsent
  · rw [hfr', hbuf]; exact (List.take_append_drop _ _).symm

/-- **One call of the worker**, for a frame that the bytes `bs` have completed. -/
theorem handled {f : Framer UInt8 ℤ} (hp : EchoPhase f) (hsur : SurplusBounded f) {bs : List UInt8}
    (hbs : bs.length ≤ f.want) {c : TCPConnection} (hc : ConnOK c) (hr : ReplyOK c) (hfr : c.framer = f.push bs)
    (hfull : c.framer.Full) {next : ℕ} (hret : (processIoBuffer next c).2.2 = WORKER_OK) :
    ∃ taken, Handled c (runCalls c (processIoBuffer next c).2.1) taken := by
  unfold SurplusBounded at hsur
  cases hp with
  | idle => exact ⟨[], (handled_idle hc hr hfr hfull (by simpa using hbs) next).2⟩
  | head buf =>
    dsimp only at hsur hbs
    have hlen : (buf ++ bs).length ≤ nsheadSize + 2 ^ 29 := by rw [List.length_append]; omega
    exact ⟨[], handled_head hc hr hfr hfull hlen next hret⟩
  | body buf hlen hmagic =>
    rw [body_push hlen] at hfr
    dsimp only at hsur hbs
    have hbody := bodyLen_append hlen bs
    exact ⟨_, (handled_body hc hr hfr hfull (by rw [List.length_append]; omega)
      ((magicNum_append hlen bs).trans hmagic) (by rw [List.length_append, hbody]; omega) next).2⟩

/-! ## Runs -/

/-- No header so far announced a body of more than `2 ^ 29` bytes. -/
def Echo.Modest (s : Echo) : Prop := s.conn.bytesExpected ≤ 2 ^ 29

instance (s : Echo) : Decidable s.Modest := inferInstanceAs (Decidable (_ ≤ _))

/-- The connection, and the requests answered so far: they are the input without what is in the buffer, or
behind it once the connection is closed. -/
structure EchoOK (s : Echo) : Prop where
  conn : ConnOK s.conn
  phase : EchoPhase s.conn.framer
  surplus : SurplusBounded s.conn.framer
  reply : ReplyOK s.conn
  answers : ∃ (answered : List (List UInt8)) (rest : List UInt8), (∀ r ∈ answered, IsRequest r) ∧
    s.input = answered.flatten ++ rest ∧ s.accepted ++ s.conn.unsent = answered.flatten ∧
    (s.closed = false → rest = s.conn.framer.buf)

theorem init_echo_ok (sock : Socket) (now : ℕ) (ssl : Bool) (next : ℕ) :
    EchoOK (Echo.init (TCPConnection.start sock now ssl) next) :=
  ⟨start_ok sock now ssl, .idle, Nat.zero_le _, (init_output_ok sock now ssl).toReplyOK,
    [], [], fun _ h => (List.not_mem_nil h).elim, rfl, rfl, fun _ => rfl⟩

theorem EchoPhase.done_le {f : Framer UInt8 ℤ} (h : EchoPhase f) : f.done ≤ 36 := by
  cases h with
  | idle => exact Nat.zero_le _
  | head buf => exact Nat.zero_le _
  | body buf hlen hmagic => exact le_rfl

theorem EchoOK.inRange {s : Echo} (h : EchoOK s) (hm : s.Modest) : InRange s.conn := by
  have hsur := h.surplus
  have hdone := h.phase.done_le
  have hlen := h.conn.length_buf
  have hp : sdsMaxPrealloc = 1024 * 1024 := rfl
  unfold SurplusBounded at hsur
  unfold Echo.Modest at hm
  unfold InRange
  omega

theorem EchoOK.read_le {s : Echo} (h : EchoOK s) (hm : s.Modest) (src : StreamSrc) :
    (s.conn.sysRead src).bytes.length ≤ s.conn.bytesExpected := by
  have hr := h.inRange hm
  have hle := sysReadStream_length src (CInt.toSize s.conn.rlen)
  unfold InRange at hr
  have hrlen : s.conn.rlen = s.conn.bytesExpected := CInt.toInt_nat (by omega)
  rw [hrlen, CInt.toSize_nat (by omega)] at hle
  unfold TCPConnection.sysRead
  rw [hrlen, CInt.toSize_nat (by omega)]
  omega

/-- **What a read event does**: it closes the connection, it only appends to the buffer, or it calls the
worker once. -/
theorem echo_read {s : Echo} (h : EchoOK s) (hopen : s.closed = false) (hm : s.Modest) (e : ReadEnv) :
    (s.step (.read e) = some { s with input := s.input ++ (s.conn.sysRead e.src).bytes, closed := true }) ∨
      ∃ c₁, ConnOK c₁ ∧ SameReplies s.conn c₁ ∧ c₁.framer = s.conn.framer.push (s.conn.sysRead e.src).bytes ∧
        ((¬ c₁.framer.Full ∧
          s.step (.read e) = some { s with conn := c₁, input := s.input ++ (s.conn.sysRead e.src).bytes }) ∨
        (c₁.framer.Full ∧ (processIoBuffer s.next c₁).2.2 = WORKER_OK ∧
          s.step (.read e) =
            some { s with
              conn := runCalls c₁ (processIoBuffer s.next c₁).2.1
              next := (processIoBuffer s.next c₁).1
              input := s.input ++ (s.conn.sysRead e.src).bytes })) := by
  have hr := h.inRange hm
  have hstep : s.step (.read e) =
      ((⟨s.conn, s.next, [], [], []⟩ : Input ℕ).read processIoBuffer e).map
        (s.afterRead (s.conn.sysRead e.src).bytes) := by
    unfold Echo.step
    rw [if_neg (by rw [hopen]; exact Bool.false_ne_true)]
    rfl
  cases hread : (⟨s.conn, s.next, [], [], []⟩ : Input ℕ).read processIoBuffer e with
  | none =>
    -- the read stays inside the buffer
    obtain ⟨r, hrecv⟩ := Option.isSome_iff_exists.1 (recv_defined e h.conn.sds hr)
    have hread' : (⟨s.conn, s.next, [], [], []⟩ : Input ℕ).read processIoBuffer e ≠ none := by
      unfold Input.read tcpReadIo
      rw [hrecv]
      exact Option.some_ne_none _
    exact absurd hread hread'
  | some r =>
    rw [hread] at hstep
    rcases read_ends hread with ⟨cause, -, rfl⟩ | ⟨c₁, hrecv, hcase⟩
    · exact Or.inl hstep
    · obtain ⟨hok, hpush⟩ := recv_push h.conn hr hrecv
      have hsame : SameReplies s.conn c₁ := by
        obtain ⟨buf, hc₁⟩ := recv_shape hrecv
        rw [hc₁]
        exact ⟨rfl, rfl, rfl⟩
      rcases hcase with ⟨hrd, rfl⟩ | ⟨-, -, rfl⟩ | ⟨hrd, hret, rfl⟩
      · exact Or.inr ⟨c₁, hok, hsame, hpush, Or.inl ⟨hok.ready_eq_false.1 hrd, hstep⟩⟩
      · exact Or.inl hstep
      · exact Or.inr ⟨c₁, hok, hsame, hpush, Or.inr ⟨hok.ready_iff.1 hrd, hret, hstep⟩⟩

/-- A request that leaves the buffer becomes the last one answered. -/
theorem EchoOK.handle {s : Echo} (h : EchoOK s) (hopen : s.closed = false) {c₁ c' : TCPConnection}
    (hsame : SameReplies s.conn c₁) {bs taken : List UInt8} (hpush : c₁.framer = s.conn.framer.push bs)
    (hh : Handled c₁ c' taken) (next : ℕ) :
    EchoOK { s with conn := c', next := next, input := s.input ++ bs } := by
  obtain ⟨answered, rest, hall, hinput, hsent, hrest⟩ := h.answers
  have hsplit : s.conn.framer.buf ++ bs = taken ++ c'.framer.buf := by
    rw [← hh.split, hpush]; rfl
  have hin : s.input ++ bs = answered.flatten ++ (taken ++ c'.framer.buf) := by
    rw [hinput, hrest hopen, List.append_assoc, hsplit]
  have hout : s.accepted ++ c'.unsent = answered.flatten ++ taken := by
    rw [hh.unsent, hsame.unsent, ← List.append_assoc, hsent]
  refine ⟨hh.conn, hh.phase, hh.surplus, hh.reply, ?_⟩
  rcases hh.whole with hnil | hreq
  · rw [hnil, List.nil_append] at hin
    rw [hnil, List.append_nil] at hout
    exact ⟨answered, _, hall, hin, hout, fun _ => rfl⟩
  · refine ⟨answered ++ [taken], c'.framer.buf, ?_, ?_, ?_, fun _ => rfl⟩
    · intro r hr
      rcases List.mem_append.1 hr with hr | hr
      · exact hall r hr
      · rw [List.mem_singleton.1 hr]; exact hreq
    · rw [List.flatten_append, List.flatten_singleton, List.append_assoc]; exact hin
    · rw [List.flatten_append, List.flatten_singleton]; exact hout

/-- Bytes that complete nothing are in the buffer. -/
theorem EchoOK.wait {s : Echo} (h : EchoOK s) (hopen : s.closed = false) (hm : s.Modest) {c₁ : TCPConnection}
    (hok : ConnOK c₁) (hsame : SameReplies s.conn c₁) {bs : List UInt8}
    (hpush : c₁.framer = s.conn.framer.push bs) (hwait : ¬ c₁.framer.Full) :
    EchoOK { s with conn := c₁, input := s.input ++ bs } := by
  have hphase : EchoPhase c₁.framer := by
    rw [hpush] at hwait ⊢
    exact h.phase.push hwait
  have hsur : SurplusBounded c₁.framer := by
    have hwant : c₁.framer.want = s.conn.bytesExpected := by rw [hpush]; rfl
    unfold Framer.Full at hwait
    unfold Echo.Modest at hm
    unfold SurplusBounded
    omega
  refine h.handle hopen hsame hpush ⟨hok, hphase, hsur, hsame.replyOK h.reply, ?_, rfl, Or.inl rfl⟩ s.next
  rw [List.append_nil]

/-- A write event does not concern the decoder. -/
theorem tcpWriteIo_input (now : ℕ) (ks : List Sink) (c : TCPConnection) :
    (tcpWriteIo now ks c).conn.framer = c.framer ∧ (tcpWriteIo now ks c).conn.ioBuffer = c.ioBuffer := by
  obtain ⟨rest, size, written, hconn, -, -⟩ := tcpWriteLoop_shape ks c
  unfold tcpWriteIo
  dsimp only
  by_cases hd : (tcpWriteLoop c ks).stop = .drained
  · rw [if_pos hd, hconn]; exact ⟨rfl, rfl⟩
  · rw [if_neg hd, hconn]; exact ⟨rfl, rfl⟩

/-- A write event moves bytes from the replies to the socket. -/
theorem EchoOK.write {s : Echo} (h : EchoOK s) (hopen : s.closed = false) (now : ℕ) (ks : List Sink) :
    EchoOK { s with
      conn := (tcpWriteIo now ks s.conn).conn
      accepted := s.accepted ++ (tcpWriteIo now ks s.conn).sent
      closed := decide ((tcpWriteIo now ks s.conn).stop = .failed) } := by
  obtain ⟨hfr, hbuf⟩ := tcpWriteIo_input now ks s.conn
  have hout : OutputOK ⟨s.conn, s.accepted, s.accepted ++ s.conn.unsent, false⟩ := ⟨h.reply, rfl⟩
  have hwrite := step_output_ok hout (e := .write now ks) rfl
  obtain ⟨answered, rest, hall, hinput, hsent, hrest⟩ := h.answers
  have hprocessed : (tcpWriteIo now ks s.conn).conn.bytesProcessed = s.conn.bytesProcessed :=
    congrArg Framer.done hfr
  refine ⟨⟨by rw [hbuf]; exact h.conn.sds, by rw [hbuf, hprocessed]; exact h.conn.processed⟩, ?_, ?_,
    hwrite.toReplyOK, answered, rest, hall, hinput, hwrite.stream.trans hsent, fun _ => ?_⟩
  · rw [hfr]; exact h.phase
  · rw [hfr]; exact h.surplus
  · rw [hfr]; exact hrest hopen

theorem EchoOK.step {s s' : Echo} (h : EchoOK s) (hm : s.Modest) {ev : EchoEvent} (hst : s.step ev = some s') :
    EchoOK s' := by
  have hopen : s.closed = false := by
    by_contra hc
    unfold Echo.step at hst
    rw [if_pos (by simpa using hc)] at hst
    cases hst
  cases ev with
  | read e =>
    rcases echo_read h hopen hm e with hclose | ⟨c₁, hok, hsame, hpush, ⟨hwait, hstep⟩ | ⟨hfull, hret, hstep⟩⟩
    · -- what was read last is behind the buffer
      rw [hclose] at hst
      cases hst
      obtain ⟨answered, rest, hall, hinput, hsent, -⟩ := h.answers
      exact ⟨h.conn, h.phase, h.surplus, h.reply, answered, rest ++ (s.conn.sysRead e.src).bytes, hall,
        by rw [hinput, List.append_assoc], hsent, fun hf => by cases hf⟩
    · rw [hstep] at hst
      cases hst
      exact h.wait hopen hm hok hsame hpush hwait
    · rw [hstep] at hst
      cases hst
      obtain ⟨taken, hh⟩ := handled h.phase h.surplus (h.read_le hm e.src) hok (hsame.replyOK h.reply) hpush
        hfull hret
      exact h.handle hopen hsame hpush hh _
  | write now ks =>
    have hstep : s.step (.write now ks) = some { s with
        conn := (tcpWriteIo now ks s.conn).conn
        accepted := s.accepted ++ (tcpWriteIo now ks s.conn).sent
        closed := decide ((tcpWriteIo now ks s.conn).stop = .failed) } := by
      unfold Echo.step
      rw [if_neg (by rw [hopen]; exact Bool.false_ne_true)]
    rw [hstep] at hst
    cases hst
    exact h.write hopen now ks

theorem EchoOK.defined {s : Echo} (h : EchoOK s) (hopen : s.closed = false) (hm : s.Modest) (ev : EchoEvent) :
    s.step ev ≠ none := by
  cases ev with
  | read e =>
    rcases echo_read h hopen hm e with hst | ⟨c₁, -, -, -, ⟨-, hst⟩ | ⟨-, -, hst⟩⟩
    · rw [hst]; exact Option.some_ne_none _
    · rw [hst]; exact Option.some_ne_none _
    · rw [hst]; exact Option.some_ne_none _
  | write now ks =>
    unfold Echo.step
    rw [if_neg (by rw [hopen]; exact Bool.false_ne_true)]
    exact Option.some_ne_none _

/-- **The echo server answers every request once, in order and unchanged.** In every state of every run of
read and write events, for any cut of the stream into chunks: what the socket accepted and what is still
to be sent are the first `k` requests of the input; while the connection is open the input behind them is
in the buffer; and `k` counts all whole requests of the input unless a complete frame is left waiting
for the next read event. No event reads or writes outside the buffer. -/
theorem echo_faithful (sock : Socket) (now : ℕ) (ssl : Bool) (next : ℕ) {es : List EchoEvent}
    (hm : Along Echo.step (fun s _ => s.Modest) (Echo.init (TCPConnection.start sock now ssl) next) es) :
    Always Echo.step
      (fun s =>
        (∃ k, s.accepted ++ s.conn.unsent = ((requests s.input).take k).flatten ∧
          (s.closed = false →
            s.input = ((requests s.input).take k).flatten ++ s.conn.ioBuffer.content ∧
              (s.conn.ready = false → k = (requests s.input).length))) ∧
        (s.closed = false → s.Modest → ∀ ev, s.step ev ≠ none))
      (Echo.init (TCPConnection.start sock now ssl) next) es := by
  refine (always_along (I := EchoOK) (fun s ev s' hs hmod hst => hs.step hmod hst)
    (init_echo_ok sock now ssl next) hm).mono ?_
  intro s hs
  refine ⟨?_, fun hopen hmod ev => hs.defined hopen hmod ev⟩
  obtain ⟨answered, rest, hall, hinput, hsent, hrest⟩ := hs.answers
  have hreq : requests s.input = answered ++ requests rest := by rw [hinput, requests_append hall]
  have htake : (requests s.input).take answered.length = answered := by rw [hreq, List.take_left]
  refine ⟨answered.length, by rw [htake]; exact hsent, fun hopen => ⟨?_, fun hwait => ?_⟩⟩
  · rw [htake, hinput, hrest hopen]; rfl
  · -- nothing complete is left in the buffer
    have hnil := hs.phase.requests_nil (hs.conn.ready_eq_false.1 hwait)
    rw [hreq, hrest hopen, hnil, List.append_nil]

/-- A request with a body of two bytes. -/
def twoByteBody : List UInt8 :=
  List.replicate 24 0 ++ [0x94, 0x93, 0x70, 0xfb, 0, 0, 0, 0, 2, 0, 0, 0] ++ [7, 8]

/-- The request in three chunks, of which the second ends inside the body, and the answer in two. -/
def twoByteEvents : List EchoEvent :=
  [.read ⟨fun _ => 0, .bytes 0 [], 0⟩, .read ⟨fun _ => 0, .bytes 0 (twoByteBody.drop 2), 0⟩,
    .read ⟨fun _ => 0, .bytes 8 [], 0⟩, .write 0 [.room 20, .room 18]]

theorem echo_faithful_twoBytes :
    ∃ s, run Echo.step (Echo.init (TCPConnection.start ⟨0, .tcp, 7⟩ 0 false) 0) twoByteEvents = some s ∧
      s.accepted = twoByteBody ∧
      ∃ k, s.accepted ++ s.conn.unsent = ((requests s.input).take k).flatten ∧ k = (requests s.input).length := by
  have hall : Always Echo.step _ (Echo.init (TCPConnection.start ⟨0, .tcp, 7⟩ 0 false) 0) twoByteEvents :=
    echo_faithful ⟨0, .tcp, 7⟩ 0 false 0 (by decide +kernel)
  have hrun : (run Echo.step (Echo.init (TCPConnection.start ⟨0, .tcp, 7⟩ 0 false) 0) twoByteEvents).map
      (fun s => (s.accepted, s.closed, s.conn.ready)) = some (twoByteBody, false, false) := by
    decide +kernel
  obtain ⟨s, hs, hv⟩ := Option.map_eq_some_iff.1 hrun
  simp only [Prod.mk.injEq] at hv
  obtain ⟨⟨k, hsent, hbuf⟩, -⟩ := hall.last hs
  exact ⟨s, hs, hv.1, k, hsent, (hbuf hv.2.1).2 hv.2.2⟩

end Spigeon
