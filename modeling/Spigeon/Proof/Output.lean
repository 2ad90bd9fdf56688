import Spigeon.Lib.Lts
import Spigeon.Spec.Output

/-!
# TCP replies form a byte stream

The position in the outgoing stream is kept in three places: the list of replies, the
cursor into the front reply and the separate size counter.

* `loop_cases`: what one iteration of the write loop does to them.
* `loop_sends`: a write event sends what it takes off the unsent bytes, in order.
* `reply_stream`: accepted bytes followed by unsent bytes are all replies, at every
  moment of every run.
-/

namespace Spigeon

open CInt Lts

/-- Cursor and counter agree with the list. -/
structure ReplyOK (c : TCPConnection) : Prop where
  size : c.replyListSize = c.replyList.length
  empty : c.replyList = [] → c.bytesWritten = 0
  front : ∀ r rest, c.replyList = r :: rest → c.bytesWritten ≤ r.data.length

/-! ## One iteration -/

/-- A write either fails or returns the number of bytes accepted. -/
theorem socketWrite_cases (k : Sink) (len : ℕ) :
    (sysWrite k len = .error ∧ socketWrite (sysWrite k len) = SOCKET_ERR) ∨
      (socketWrite (sysWrite k len) = (sysWrite k len).count ∧ (sysWrite k len).count ≤ len) := by
  cases k with
  | room n =>
    right
    have hm : maxRwCount < 2 ^ 31 := by decide
    have hle : min n (min len maxRwCount) ≤ maxRwCount := le_trans (min_le_right _ _) (min_le_right _ _)
    have hlen : min n (min len maxRwCount) ≤ len := le_trans (min_le_right _ _) (min_le_left _ _)
    simp only [sysWrite, socketWrite, SysWrite.count]
    exact ⟨toInt_nat (by omega), hlen⟩
  | again => exact Or.inr ⟨rfl, Nat.zero_le _⟩
  | error => exact Or.inl ⟨rfl, rfl⟩

theorem ReplyOK.offered_eq {c : TCPConnection} (h : ReplyOK c) {r : Slice} {rest : List Slice}
    (hl : c.replyList = r :: rest) : c.offered r = r.data.length - c.bytesWritten :=
  toSize_sub (h.front r rest hl) r.size_lt

/-- A write that takes some bytes finishes the front reply or moves the cursor inside it. -/
theorem loop_wrote {c : TCPConnection} (h : ReplyOK c) {r : Slice} {rest : List Slice}
    (hl : c.replyList = r :: rest) {k : Sink} {n : ℕ} (hw : socketWrite (sysWrite k (c.offered r)) = n)
    (hcount : (sysWrite k (c.offered r)).count = n) (h0 : 0 < n) (hle : n ≤ c.offered r) (ks : List Sink) :
    (c.bytesWritten + n = r.data.length ∧ tcpWriteLoop c (k :: ks) =
      { tcpWriteLoop (c.popReply rest) ks with
        sent := r.data.drop c.bytesWritten ++ (tcpWriteLoop (c.popReply rest) ks).sent
        freed := r :: (tcpWriteLoop (c.popReply rest) ks).freed }) ∨
    (c.bytesWritten + n < r.data.length ∧ tcpWriteLoop c (k :: ks) =
      { tcpWriteLoop { c with bytesWritten := c.bytesWritten + n } ks with
        sent := (r.data.drop c.bytesWritten).take n ++
          (tcpWriteLoop { c with bytesWritten := c.bytesWritten + n } ks).sent }) := by
  have hfront := h.front r rest hl
  have hsize := r.size_lt
  have hoff := h.offered_eq hl
  have hsum : toSize ((n : ℤ) + c.bytesWritten) = c.bytesWritten + n := by
    rw [toSize_of_range (by omega) (by omega)]; omega
  rw [tcpWriteLoop, hl]
  dsimp only
  rw [hw, hcount, if_neg (by simp only [SOCKET_ERR]; omega), if_neg (by omega), hsum]
  by_cases hfin : c.bytesWritten + n = r.data.length
  · left
    rw [if_pos hfin, List.take_of_length_le (by rw [List.length_drop]; omega)]
    exact ⟨hfin, rfl⟩
  · right
    rw [if_neg hfin, show ((c.bytesWritten : ℤ) + n) = (n : ℤ) + c.bytesWritten by ring, hsum]
    exact ⟨by omega, rfl⟩

/-- **An iteration of the write loop**: the write fails, would block, finishes the front
reply, or moves the cursor inside it. -/
theorem loop_cases {c : TCPConnection} (h : ReplyOK c) {r : Slice} {rest : List Slice}
    (hl : c.replyList = r :: rest) (k : Sink) (ks : List Sink) :
    tcpWriteLoop c (k :: ks) = ⟨c, [], [], .failed⟩ ∨
    tcpWriteLoop c (k :: ks) = ⟨c, [], [], .blocked⟩ ∨
    (c.bytesWritten < r.data.length ∧ tcpWriteLoop c (k :: ks) =
      { tcpWriteLoop (c.popReply rest) ks with
        sent := r.data.drop c.bytesWritten ++ (tcpWriteLoop (c.popReply rest) ks).sent
        freed := r :: (tcpWriteLoop (c.popReply rest) ks).freed }) ∨
    ∃ n, 0 < n ∧ c.bytesWritten + n < r.data.length ∧
      tcpWriteLoop c (k :: ks) =
        { tcpWriteLoop { c with bytesWritten := c.bytesWritten + n } ks with
          sent := (r.data.drop c.bytesWritten).take n ++
            (tcpWriteLoop { c with bytesWritten := c.bytesWritten + n } ks).sent } := by
  rcases socketWrite_cases k (c.offered r) with ⟨-, herr⟩ | ⟨hw, hcount⟩
  · left
    rw [tcpWriteLoop, hl]
    dsimp only
    rw [herr, if_pos rfl]
  by_cases hn : (sysWrite k (c.offered r)).count = 0
  · right; left
    rw [tcpWriteLoop, hl]
    dsimp only
    rw [hw, if_neg (by simp only [SOCKET_ERR]; omega), if_pos (by omega)]
  · right; right
    rcases loop_wrote h hl hw rfl (by omega) hcount ks with ⟨hfin, hloop⟩ | ⟨hlt, hloop⟩
    · exact Or.inl ⟨by omega, hloop⟩
    · exact Or.inr ⟨_, by omega, hlt, hloop⟩

theorem ReplyOK.popReply {c : TCPConnection} (h : ReplyOK c) {r : Slice} {rest : List Slice}
    (hl : c.replyList = r :: rest) : ReplyOK (c.popReply rest) := by
  have hs := h.size
  rw [hl, List.length_cons] at hs
  refine ⟨?_, fun _ => rfl, fun _ _ _ => Nat.zero_le _⟩
  simp only [TCPConnection.popReply]; omega

theorem ReplyOK.advance {c : TCPConnection} (h : ReplyOK c) {r : Slice} {rest : List Slice}
    (hl : c.replyList = r :: rest) {n : ℕ} (hn : c.bytesWritten + n < r.data.length) :
    ReplyOK { c with bytesWritten := c.bytesWritten + n } := by
  refine ⟨h.size, fun he => ?_, fun r' rest' hl' => ?_⟩
  · simp only at he; rw [hl] at he; cases he
  · simp only at hl'
    rw [hl, List.cons.injEq] at hl'
    obtain ⟨rfl, -⟩ := hl'
    simp only; omega

theorem unsent_cons {c : TCPConnection} {r : Slice} {rest : List Slice} (hl : c.replyList = r :: rest) :
    c.unsent = r.data.drop c.bytesWritten ++ (rest.map Slice.data).flatten := by
  unfold TCPConnection.unsent; rw [hl]

/-- After a finished reply the cursor is 0. -/
theorem unsent_popReply (c : TCPConnection) (rest : List Slice) :
    (c.popReply rest).unsent = (rest.map Slice.data).flatten := by
  cases rest with
  | nil => rfl
  | cons r rest => rw [unsent_cons rfl]; simp [TCPConnection.popReply]

theorem unsent_advance {c : TCPConnection} {r : Slice} {rest : List Slice} (hl : c.replyList = r :: rest)
    (n : ℕ) :
    ({ c with bytesWritten := c.bytesWritten + n } : TCPConnection).unsent =
      (r.data.drop c.bytesWritten).drop n ++ (rest.map Slice.data).flatten := by
  rw [List.drop_drop]
  exact unsent_cons (c := { c with bytesWritten := c.bytesWritten + n }) hl

/-! ## The loop -/

/-- **A write event takes what it sends off the front of the unsent bytes.** -/
theorem loop_sends (ks : List Sink) : ∀ c : TCPConnection, ReplyOK c →
    ReplyOK (tcpWriteLoop c ks).conn ∧
      (tcpWriteLoop c ks).sent ++ (tcpWriteLoop c ks).conn.unsent = c.unsent := by
  induction ks with
  | nil => intro c h; exact ⟨h, rfl⟩
  | cons k ks ih =>
    intro c h
    cases hl : c.replyList with
    | nil =>
      have hloop : tcpWriteLoop c (k :: ks) = ⟨c, [], [], .drained⟩ := by rw [tcpWriteLoop, hl]
      rw [hloop]
      exact ⟨h, rfl⟩
    | cons r rest =>
      rcases loop_cases h hl k ks with hloop | hloop | ⟨-, hloop⟩ | ⟨n, -, hn, hloop⟩
      · rw [hloop]; exact ⟨h, rfl⟩
      · rw [hloop]; exact ⟨h, rfl⟩
      · obtain ⟨h1, h2⟩ := ih _ (h.popReply hl)
        rw [hloop]
        refine ⟨h1, ?_⟩
        rw [List.append_assoc, h2, unsent_popReply, unsent_cons hl]
      · obtain ⟨h1, h2⟩ := ih _ (h.advance hl hn)
        rw [hloop]
        refine ⟨h1, ?_⟩
        rw [List.append_assoc, h2, unsent_advance hl, unsent_cons hl, ← List.append_assoc, List.take_append_drop]

/-- `tcp_write_io` adds only the time stamp and the write interest. -/
theorem writeIo_fields (now : ℕ) (ks : List Sink) (c : TCPConnection) :
    (tcpWriteIo now ks c).sent = (tcpWriteLoop c ks).sent ∧
      (tcpWriteIo now ks c).conn.replyList = (tcpWriteLoop c ks).conn.replyList ∧
      (tcpWriteIo now ks c).conn.replyListSize = (tcpWriteLoop c ks).conn.replyListSize ∧
      (tcpWriteIo now ks c).conn.bytesWritten = (tcpWriteLoop c ks).conn.bytesWritten := by
  unfold tcpWriteIo
  dsimp only
  split
  · exact ⟨rfl, rfl, rfl, rfl⟩
  · exact ⟨rfl, rfl, rfl, rfl⟩

theorem ReplyOK.congr {c c' : TCPConnection} (h : ReplyOK c) (hl : c'.replyList = c.replyList)
    (hs : c'.replyListSize = c.replyListSize) (hw : c'.bytesWritten = c.bytesWritten) : ReplyOK c' := by
  refine ⟨by rw [hl, hs]; exact h.size, ?_, ?_⟩
  · rw [hl, hw]; exact h.empty
  · rw [hl, hw]; exact h.front

/-! ## Runs -/

/-- The accepted bytes and the unsent rest are the stream of all replies. -/
structure OutputOK (s : Output) : Prop extends ReplyOK s.conn where
  stream : s.accepted ++ s.conn.unsent = s.queued

theorem init_output_ok (sock : Socket) (now : ℕ) (ssl : Bool) :
    OutputOK (Output.init (TCPConnection.start sock now ssl)) :=
  ⟨⟨rfl, fun _ => rfl, fun _ _ _ => Nat.zero_le _⟩, rfl⟩

theorem addReply_output_ok {s : Output} (h : OutputOK s) (r : Slice) :
    OutputOK { s with conn := (Call.addReply r).run s.conn, queued := s.queued ++ r.data } := by
  have hstream := h.stream
  have hlist : ((Call.addReply r).run s.conn).replyList = s.conn.replyList ++ [r] := rfl
  have hw : ((Call.addReply r).run s.conn).bytesWritten = s.conn.bytesWritten := rfl
  refine ⟨⟨?_, ?_, ?_⟩, ?_⟩
  · rw [hlist, List.length_append]
    have hs := h.size
    simp only [Call.run, Connection.addReply, List.length_cons, List.length_nil]; omega
  · intro he; rw [hlist] at he; simp at he
  · intro r' rest' hl'
    rw [hlist] at hl'
    rw [hw]
    cases hl : s.conn.replyList with
    | nil => rw [h.empty hl]; exact Nat.zero_le _
    | cons r₀ rest =>
      rw [hl, List.cons_append, List.cons.injEq] at hl'
      rw [← hl'.1]; exact h.front r₀ rest hl
  · simp only
    cases hl : s.conn.replyList with
    | nil =>
      rw [hl] at hlist
      rw [unsent_cons hlist, hw, h.empty hl]
      -- nothing was left to send, and the cursor is at the beginning
      have hnil : s.conn.unsent = [] := by unfold TCPConnection.unsent; rw [hl]
      rw [hnil, List.append_nil] at hstream
      simp [hstream]
    | cons r₀ rest =>
      rw [hl] at hlist
      rw [unsent_cons hlist, hw, ← hstream, unsent_cons hl]
      simp

theorem step_output_ok {s s' : Output} {e : OutputEvent} (h : OutputOK s) (hst : s.step e = some s') :
    OutputOK s' := by
  unfold Output.step at hst
  split at hst
  · cases hst
  cases e with
  | addReply r =>
    simp only [Option.some.injEq] at hst
    rw [← hst]; exact addReply_output_ok h r
  | write now ks =>
    simp only [Option.some.injEq] at hst
    obtain ⟨hsent, hl, hs, hw⟩ := writeIo_fields now ks s.conn
    obtain ⟨hok, hsends⟩ := loop_sends ks s.conn h.toReplyOK
    rw [← hst]
    refine ⟨hok.congr hl hs hw, ?_⟩
    have hunsent : (tcpWriteIo now ks s.conn).conn.unsent = (tcpWriteLoop s.conn ks).conn.unsent := by
      unfold TCPConnection.unsent; rw [hl, hw]
    simp only
    rw [hunsent, hsent, List.append_assoc, hsends, h.stream]

/-- **TCP replies form a faithful byte stream.** In every state of every run: the bytes
accepted by the socket followed by the unsent rest are the replies in the order of
`add_reply`, the cursor is 0 on an empty list and inside the front reply otherwise, and
the counter is the length of the list. -/
theorem reply_stream (sock : Socket) (now : ℕ) (ssl : Bool) (es : List OutputEvent) :
    Always Output.step
      (fun s => s.accepted ++ s.conn.unsent = s.queued ∧
        (s.conn.replyList = [] → s.conn.bytesWritten = 0) ∧
        (∀ r rest, s.conn.replyList = r :: rest → s.conn.bytesWritten ≤ r.data.length) ∧
        s.conn.replyListSize = s.conn.replyList.length)
      (Output.init (TCPConnection.start sock now ssl)) es := by
  have hall : Always Output.step OutputOK (Output.init (TCPConnection.start sock now ssl)) es :=
    Lts.always (fun _ _ _ => step_output_ok) (init_output_ok sock now ssl)
  exact hall.mono fun s h => ⟨h.stream, h.empty, h.front, h.size⟩

end Spigeon
