import Spigeon.Lib.Lts
import Spigeon.Proof.Objects
import Spigeon.Spec.Replies
import Spigeon.Spec.Server

/-!
# The configured limits

No function of the worker reads `max_io_buffer_size` or `max_reply_list_size`, so the limits
hold as long as peers and handlers stay within them.

* `recv_len`, `udpRecv_len`, `range_len`: the length of the string in the buffer.
* `Fits`: what an event adds to its connection is within the limits.
* `edits_limits`: an event that fits keeps the limits for every connection.
* `limits_of_fits`: a run of events that fit is within the limits.
-/

namespace Spigeon

open CInt Lts

/-! ## The length of the buffer -/

/-- The header field `len` is a length. -/
structure Sized (s : Sds) : Prop where
  nonneg : 0 ≤ s.len
  int : s.len < 2 ^ 31

theorem Sized.sdslen_eq {s : Sds} (h : Sized s) : (sdslen s : ℤ) = s.len := by
  have h0 := h.nonneg
  have h1 := h.int
  unfold sdslen
  rw [toSize_of_range h0 (by omega)]
  omega

theorem makeRoom_len (fill : ℕ → UInt8) (s : Sds) (n : ℕ) : (sdsMakeRoomFor fill s n).len = s.len := by
  unfold sdsMakeRoomFor
  split <;> rfl

theorem incrLen_len {s s' : Sds} {r : ℤ} (h : sdsIncrLen s r = some s') (h0 : 0 ≤ s.len + r)
    (hint : s.len + r < 2 ^ 31) : s'.len = s.len + r := by
  unfold sdsIncrLen at h
  split at h
  · cases h
  dsimp only at h
  split at h
  · cases h
  obtain ⟨b, -, rfl⟩ := Option.map_eq_some_iff.1 h
  exact toInt_of_range (by omega) hint

/-- The end of both read functions: the result of the read is added unless it is zero or
negative. -/
theorem addRead_len {s s' : Sds} {r : ℤ} {n : ℕ} (h : (if r > 0 then sdsIncrLen s r else some s) = some s')
    (hr : r = n ∨ r ≤ 0 ∧ n = 0) (h0 : 0 ≤ s.len) (hint : s.len + n < 2 ^ 31) : s'.len = s.len + n := by
  split at h
  · rename_i hpos
    rw [incrLen_len h (by omega) (by omega)]
    omega
  · rename_i hneg
    cases h
    omega

theorem recv_len {e : ReadEnv} {c c₁ : TCPConnection} (h : tcpRecv e c = some (.ok c₁)) (hs : Sized c.ioBuffer)
    (hint : sdslen c.ioBuffer + (c.sysRead e.src).bytes.length < 2 ^ 31) :
    c₁.ioBuffer.len = c.ioBuffer.len + (c.sysRead e.src).bytes.length := by
  obtain ⟨b, buf, hcount, hbuf, rfl⟩ := recv_counted h
  have hlen := makeRoom_len e.fill c.ioBuffer (toSize c.rlen)
  have hold := hs.sdslen_eq
  rw [addRead_len hbuf (Or.inl hcount) (by dsimp only; omega) (by dsimp only; omega), makeRoom_len]

theorem udpRecv_len {e : DgramEnv} {c c₁ : UDPConnection} (h : udpRecv e c = some c₁) (hs : Sized c.ioBuffer)
    (hint : sdslen c.ioBuffer + (sysReadDgram e.src 1024).bytes.length < 2 ^ 31) :
    c₁.ioBuffer.len = c.ioBuffer.len + (sysReadDgram e.src 1024).bytes.length := by
  unfold udpRecv at h
  dsimp only at h
  obtain ⟨b, -, h⟩ := Option.bind_eq_some_iff.1 h
  obtain ⟨buf, hbuf, rfl⟩ := Option.map_eq_some_iff.1 h
  have hread := (dgramRead_cases e.src (show 1024 ≤ maxRwCount by decide)).imp_right
    (And.imp_right (congrArg List.length))
  have hlen := makeRoom_len e.fill c.ioBuffer 1024
  have hold := hs.sdslen_eq
  rw [addRead_len hbuf hread (by dsimp only; omega) (by dsimp only; omega), makeRoom_len]

/-- `sdsrange(s, start, -1)` keeps at most what there was, whatever `start` is. -/
theorem range_len {s : Sds} (h : Sized s) {start : ℤ} (hlo : -2 ^ 31 ≤ start) :
    Sized (sdsrange s start (-1)) ∧ (sdsrange s start (-1)).len ≤ s.len := by
  have hlen := h.sdslen_eq
  have hint := h.int
  unfold sdsrange
  split
  · exact ⟨h, le_refl _⟩
  · rename_i hne
    have hin := rangeWindow_inside (show 0 < sdslen s by omega) (by omega) hlo
    have hwin : (rangeWindow (sdslen s) start (-1)).2 ≤ sdslen s := by omega
    have hnew : toInt ((rangeWindow (sdslen s) start (-1)).2 : ℤ) = (rangeWindow (sdslen s) start (-1)).2 :=
      toInt_nat (by omega)
    refine ⟨⟨?_, ?_⟩, ?_⟩ <;> dsimp only <;> rw [hnew] <;> omega

/-! ## Handlers -/

/-- A TCP handler never lengthens the buffer, and the list gets the replies it adds. -/
theorem runCalls_lengths (calls : List Call) : ∀ c : TCPConnection, Sized c.ioBuffer →
    Sized (runCalls c calls).ioBuffer ∧ (runCalls c calls).ioBuffer.len ≤ c.ioBuffer.len ∧
      (runCalls c calls).replyList = c.replyList ++ calls.filterMap Call.reply := by
  induction calls with
  | nil => intro c h; exact ⟨h, le_refl _, (List.append_nil _).symm⟩
  | cons k ks ih =>
    intro c h
    cases k with
    | reset st n => exact ih (c.reset st n) h
    | expectNext st n => exact ih (c.expectNext st n) h
    | shrinkProcessed st n =>
      have hrange := range_len h (toInt_range ((c.bytesProcessed + c.bytesExpected) % 2 ^ 64 : ℕ)).1
      obtain ⟨hs, hle, hr⟩ := ih (c.shrinkProcessed st n) hrange.1
      exact ⟨hs, le_trans hle hrange.2, hr⟩
    | addReply r =>
      obtain ⟨hs, hle, hr⟩ := ih ((Call.addReply r).run c) h
      refine ⟨hs, hle, hr.trans ?_⟩
      rw [List.filterMap_cons_some (show Call.reply (.addReply r) = some r from rfl)]
      exact List.append_assoc _ _ _

theorem runUdp_lengths (calls : List Call) : ∀ c : UDPConnection,
    (calls.foldl Call.runUdp c).ioBuffer = c.ioBuffer ∧
      (calls.foldl Call.runUdp c).replyList = c.replyList ++ calls.filterMap Call.reply := by
  induction calls with
  | nil => intro c; exact ⟨rfl, (List.append_nil _).symm⟩
  | cons k ks ih =>
    intro c
    cases k with
    | addReply r =>
      obtain ⟨hb, hr⟩ := ih ((Call.addReply r).runUdp c)
      refine ⟨hb, hr.trans ?_⟩
      rw [List.filterMap_cons_some (show Call.reply (.addReply r) = some r from rfl)]
      exact List.append_assoc _ _ _
    | reset st n => exact ih c
    | expectNext st n => exact ih c
    | shrinkProcessed st n => exact ih c

/-! ## Events within the limits -/

/-- The bytes that a read event takes from the socket of a connection. -/
def IoEnv.bytes (env : IoEnv) : Conn → List UInt8
  | .tcp c => (c.sysRead env.stream).bytes
  | .udp _ => (sysReadDgram env.dgram 1024).bytes

namespace Worker

/-- The length to which a read event fills the buffer of its connection. -/
def filled (w : Worker) : WorkerEvent → Option ℕ
  | .next =>
    w.todo.head?.bind fun
      | .readIo fd env =>
        (w.lookup fd).bind fun id =>
          (w.objs[id]?).map fun c => sdslen c.base.ioBuffer + (env.bytes c).length
      | _ => none
  | _ => none

/-- The length to which an event brings the reply list of its connection. -/
def listed (w : Worker) (e : WorkerEvent) : Option ℕ :=
  match e with
  | .create _ => some 0
  | _ => (w.dealt e).bind fun d => (w.objs[d.1]?).map fun c => c.base.replyList.length + d.2.given.length

end Worker

/-- The event stays within the limits, and the length of a buffer is an `int`. -/
def Fits (o : GenericServerOptions) (w : Worker) (e : WorkerEvent) : Prop :=
  (∀ n ∈ w.filled e, n ≤ o.maxIoBufferSize ∧ n < 2 ^ 31) ∧ ∀ n ∈ w.listed e, (n : ℤ) ≤ o.maxReplyListSize

instance (o : GenericServerOptions) (w : Worker) (e : WorkerEvent) : Decidable (Fits o w e) :=
  inferInstanceAs (Decidable (_ ∧ _))

/-- The buffer and the reply list of a connection are within the limits. -/
structure WithinLimits (o : GenericServerOptions) (c : Connection) : Prop where
  buffer : sdslen c.ioBuffer ≤ o.maxIoBufferSize
  replies : (c.replyList.length : ℤ) ≤ o.maxReplyListSize

structure LimitsOK (o : GenericServerOptions) (c : Connection) : Prop extends WithinLimits o c where
  sized : Sized c.ioBuffer

variable {o : GenericServerOptions} {w w' : Worker} {e : WorkerEvent} {id fd : ℕ} {c c' : Conn} {env : IoEnv}

theorem Fits.buffer (h : Fits o w e) (hf : Finds w e (.readIo fd env) fd id) (hobj : w.objs[id]? = some c) :
    sdslen c.base.ioBuffer + (env.bytes c).length ≤ o.maxIoBufferSize ∧
      sdslen c.base.ioBuffer + (env.bytes c).length < 2 ^ 31 := by
  refine h.1 _ ?_
  rw [hf.next, Worker.filled, hf.todo, Option.bind_some]
  dsimp only
  rw [hf.found, Option.bind_some, hobj]
  rfl

theorem Fits.replies (h : Fits o w e) {a : Account} (hdealt : w.dealt e = some (id, a))
    (hobj : w.objs[id]? = some c) : (c.base.replyList.length : ℤ) + a.given.length ≤ o.maxReplyListSize := by
  have hmem : c.base.replyList.length + a.given.length ∈ w.listed e := by
    cases e with
    | create s => cases hdealt
    | _ => simp only [Worker.listed, hdealt, hobj, Option.bind_some, Option.map_some, Option.mem_def]
  have hle := h.2 _ hmem
  push_cast at hle
  exact hle

theorem dealt_handled {c c₁ : TCPConnection} (hf : Finds w e (.readIo fd env) fd id)
    (hobj : w.objs[id]? = some (.tcp c)) (hrecv : tcpRecv ⟨env.fill, env.stream, w.now⟩ c = some (.ok c₁))
    (hready : c₁.ready = true) : w.dealt e = some (id, ⟨env.answer.replies, [], []⟩) := by
  simp only [hf.next, Worker.dealt, hf.todo, Option.bind_some, Worker.deals, hf.found, hobj, hrecv, hready,
    if_true]

theorem dealt_dgram {c : UDPConnection} (hf : Finds w e (.readIo fd env) fd id)
    (hobj : w.objs[id]? = some (.udp c)) : w.dealt e = some (id, ⟨env.answer.replies, [], []⟩) := by
  simp only [hf.next, Worker.dealt, hf.todo, Option.bind_some, Worker.deals, hf.found, hobj]

/-- A read event fills the buffer as far as it fits. -/
theorem filled_ok {b b' : Connection} {n : ℕ} (h : LimitsOK o b) (hlen : b'.ioBuffer.len = b.ioBuffer.len + n)
    (hreplies : b'.replyList = b.replyList) (hmax : sdslen b.ioBuffer + n ≤ o.maxIoBufferSize)
    (hint : sdslen b.ioBuffer + n < 2 ^ 31) : LimitsOK o b' := by
  have hold := h.sized.sdslen_eq
  have hsized : Sized b'.ioBuffer := ⟨by omega, by omega⟩
  have hnew := hsized.sdslen_eq
  exact ⟨⟨by omega, hreplies ▸ h.replies⟩, hsized⟩

/-- A handler that shortens the buffer and adds replies that fit. -/
theorem handled_ok {b b' : Connection} {rs : List Slice} (h : LimitsOK o b) (hsized : Sized b'.ioBuffer)
    (hlen : b'.ioBuffer.len ≤ b.ioBuffer.len) (hreplies : b'.replyList = b.replyList ++ rs)
    (hmax : (b.replyList.length : ℤ) + rs.length ≤ o.maxReplyListSize) : LimitsOK o b' := by
  have hold := h.sized.sdslen_eq
  have hnew := hsized.sdslen_eq
  have hbuf := h.buffer
  refine ⟨⟨by omega, ?_⟩, hsized⟩
  rw [hreplies, List.length_append]
  push_cast
  exact hmax

/-- Replies taken off the list. -/
theorem taken_ok {b b' : Connection} (h : LimitsOK o b) (hbuf : b'.ioBuffer = b.ioBuffer)
    (hsuf : b'.replyList <:+ b.replyList) : LimitsOK o b' := by
  have hlen := hsuf.length_le
  have hreplies := h.replies
  refine ⟨⟨hbuf ▸ h.buffer, by omega⟩, hbuf ▸ h.sized⟩

theorem recv_limits {c c₁ : TCPConnection} (hfit : Fits o w e) (hf : Finds w e (.readIo fd env) fd id)
    (hobj : w.objs[id]? = some (.tcp c)) (h : LimitsOK o c.toConnection)
    (hrecv : tcpRecv ⟨env.fill, env.stream, w.now⟩ c = some (.ok c₁)) :
    LimitsOK o c₁.toConnection ∧ c₁.replyList = c.replyList := by
  obtain ⟨hmax, hint⟩ := hfit.buffer hf hobj
  have hlen := recv_len hrecv h.sized hint
  obtain ⟨buf, rfl⟩ := recv_shape hrecv
  exact ⟨filled_ok h hlen rfl hmax hint, rfl⟩

theorem udpRecv_limits {c c₁ : UDPConnection} (hfit : Fits o w e) (hf : Finds w e (.readIo fd env) fd id)
    (hobj : w.objs[id]? = some (.udp c)) (h : LimitsOK o c.toConnection)
    (hrecv : udpRecv ⟨env.fill, env.dgram, w.now⟩ c = some c₁) :
    LimitsOK o c₁.toConnection ∧ c₁.replyList = c.replyList := by
  obtain ⟨hmax, hint⟩ := hfit.buffer hf hobj
  have hlen := udpRecv_len hrecv h.sized hint
  obtain ⟨buf, rfl⟩ := udpRecv_shape hrecv
  exact ⟨filled_ok h hlen rfl hmax hint, rfl⟩

/-- **Whatever an event that fits does to a connection keeps the limits.** -/
theorem edits_limits (hfit : Fits o w e) (hobj : w.objs[id]? = some c) (h : LimitsOK o c.base)
    (hedit : Edits w e id c c') : LimitsOK o c'.base := by
  induction hedit with
  | same c => exact h
  | @stamp c c' hedit ih =>
    have hok := ih hobj h
    cases c' <;> exact ⟨⟨hok.buffer, hok.replies⟩, hok.sized⟩
  | @reply c r he =>
    have hmax := hfit.replies (a := ⟨[r], [], []⟩) (by rw [he]; rfl) hobj
    cases c <;> exact handled_ok h h.sized (le_refl _) rfl hmax
  | recv hf hrecv => exact (recv_limits hfit hf hobj h hrecv).1
  | @handled fd env c c₁ calls ret hf hrecv hready hans =>
    obtain ⟨hread, hlist⟩ := recv_limits hfit hf hobj h hrecv
    have hreplies := hfit.replies (dealt_handled hf hobj hrecv hready) hobj
    rw [hans, show (Conn.tcp c).base.replyList = c₁.replyList from hlist.symm] at hreplies
    obtain ⟨hs, hle, hr⟩ := runCalls_lengths calls c₁ hread.sized
    exact handled_ok hread hs hle hr hreplies
  | dgram hf hrecv => exact (udpRecv_limits hfit hf hobj h hrecv).1
  | @dgramHandled fd env c c₁ calls ret hf hrecv hans =>
    obtain ⟨hread, hlist⟩ := udpRecv_limits hfit hf hobj h hrecv
    have hreplies := hfit.replies (dealt_dgram hf hobj) hobj
    rw [hans, show (Conn.udp c).base.replyList = c₁.replyList from hlist.symm] at hreplies
    obtain ⟨hb, hr⟩ := runUdp_lengths calls c₁
    exact handled_ok hread (hb ▸ hread.sized) (le_of_eq (congrArg Sds.len hb)) hr hreplies
  | @write fd ks c hf =>
    obtain ⟨rest, size, written, hconn, hsuf, -⟩ := tcpWriteLoop_shape ks c
    unfold tcpWriteIo
    dsimp only
    split <;> exact taken_ok h (by simp only [hconn]; rfl) (by simp only [hconn]; exact hsuf)
  | @dgramWrite fd ks c hf hstop =>
    obtain ⟨rest, size, hconn, hsuf, -⟩ := udpWriteLoop_shape ks c
    unfold udpWriteIo
    dsimp only
    split <;> exact taken_ok h (by simp only [hconn]; rfl) (by simp only [hconn]; exact hsuf)

/-- Every connection, a removed one as it was left. -/
def AllWithin (o : GenericServerOptions) (w : Worker) : Prop :=
  ∀ (i : ℕ) (c : Conn), w.objs[i]? = some c → LimitsOK o c.base

theorem within_step (w : Worker) (e : WorkerEvent) (w' : Worker) (h : AllWithin o w) (hfit : Fits o w e)
    (hst : w.step e = some w') : AllWithin o w' := by
  intro i c' hobj
  rcases step_edits hst hobj with ⟨c, hobj₀, hedit⟩ | ⟨s, rfl, -, rfl⟩
  · exact edits_limits hfit hobj₀ (h i c hobj₀) hedit
  · have hzero : (0 : ℤ) ≤ o.maxReplyListSize := hfit.2 0 rfl
    unfold Conn.start
    have hempty : Sized sdsempty := ⟨by decide, by decide⟩
    cases s.kind <;> exact ⟨⟨Nat.zero_le _, hzero⟩, hempty⟩

/-- **The configured limits.** Along a run whose reads take no more bytes than the limit of
the buffer leaves room for, and whose replies are no more than the limit of the list leaves
room for, every connection is within the limits in every state. -/
theorem limits_of_fits (o : GenericServerOptions) (now : ℕ) {es : List WorkerEvent}
    (hfit : Along Worker.step (Fits o) (o.worker now) es) :
    Always Worker.step (fun w => ∀ id ∈ w.watched, ∀ c, w.objs[id]? = some c → WithinLimits o c.base)
      (o.worker now) es := by
  have hinit : AllWithin o (o.worker now) := fun i c hobj => by cases hobj
  have hall := always_along within_step hinit hfit
  exact hall.mono fun w h id _ c hobj => (h id c hobj).toWithinLimits

/-- A peer that sends one byte at a time and a handler that answers each byte twice and
never shrinks the buffer. -/
def chatter : List WorkerEvent :=
  let env : IoEnv :=
    ⟨fun _ => 0, .bytes 5 [], .again, .leave [.expectNext 0 1, .addReply ⟨100, [1], by decide⟩,
      .addReply ⟨200, [2], by decide⟩] 0⟩
  [.create ⟨0, .tcp, 7⟩, .io 0 true false env [], .next, .next, .io 0 true false env [], .next, .next]

def chatterView (w : Worker) : List ℕ × List (ℕ × ℕ) :=
  (w.watched, w.objs.map fun c => (sdslen c.base.ioBuffer, c.base.replyList.length))

/-- Two bytes and four replies are within limits that have room for them. -/
theorem limits_of_fits_chatter :
    ∃ w, run Worker.step
        (GenericServerOptions.worker
          { GenericServerOptions.new with maxIoBufferSize := 2, maxReplyListSize := 4 } 0)
        chatter = some w ∧ chatterView w = ([0], [(2, 4)]) ∧
      ∀ id ∈ w.watched, ∀ c, w.objs[id]? = some c →
        WithinLimits { GenericServerOptions.new with maxIoBufferSize := 2, maxReplyListSize := 4 } c.base := by
  have hmap : (run Worker.step
      (GenericServerOptions.worker
        { GenericServerOptions.new with maxIoBufferSize := 2, maxReplyListSize := 4 } 0)
      chatter).map chatterView = some ([0], [(2, 4)]) := by decide +kernel
  obtain ⟨w, hrun, hv⟩ := Option.map_eq_some_iff.1 hmap
  exact ⟨w, hrun, hv, (limits_of_fits _ 0 (by decide +kernel)).last hrun⟩

/-- With limits of one byte and one reply the same run goes on past both. -/
theorem limits_not_enforced :
    ∃ w c, run Worker.step
        (GenericServerOptions.worker
          { GenericServerOptions.new with maxIoBufferSize := 1, maxReplyListSize := 1 } 0)
        chatter = some w ∧ 0 ∈ w.watched ∧ w.objs[0]? = some c ∧ 1 < sdslen c.base.ioBuffer ∧
        1 < c.base.replyList.length := by
  have hmap : (run Worker.step
      (GenericServerOptions.worker
        { GenericServerOptions.new with maxIoBufferSize := 1, maxReplyListSize := 1 } 0)
      chatter).map chatterView = some ([0], [(2, 4)]) := by decide +kernel
  obtain ⟨w, hrun, hv⟩ := Option.map_eq_some_iff.1 hmap
  simp only [chatterView, Prod.mk.injEq] at hv
  obtain ⟨hwatched, hobjs⟩ := hv
  obtain ⟨c, hobj, hc⟩ := List.map_eq_singleton_iff.1 hobjs
  simp only [Prod.mk.injEq] at hc
  refine ⟨w, c, hrun, by rw [hwatched]; exact List.mem_cons_self, by rw [hobj]; rfl, ?_, ?_⟩
  · rw [hc.1]; decide
  · rw [hc.2]; decide

end Spigeon
