import Mathlib.Data.Stream.Init
import Spigeon.Proof.Output

/-!
# When the write loops end

What the socket does with the successive writes of one call is a stream of answers, and a
loop ends if it ends on some beginning of the stream.

* `udp_write_ends_iff`: `udp_write_io` ends exactly if the socket takes the replies one after
  the other, each of them whole. The loop has no other way out.
* `willing_drains_iff`: a socket that takes all it is offered lets `tcp_write_io` empty the
  list exactly if there is something left to send of every reply. A write of no bytes
  returns 0, which the loop takes for a socket that would block.
-/

namespace Spigeon

open CInt

/-! ## UDP -/

/-- The test of `udp_write_io`: `w == reply.size()`. -/
def TakesWhole (k : Sink) (r : Slice) : Prop := toSize (socketWrite (sysWrite k r.data.length)) = r.data.length

instance (k : Sink) (r : Slice) : Decidable (TakesWhole k r) := inferInstanceAs (Decidable (_ = _))

/-- The socket takes the replies one after the other, each after finitely many tries. -/
def SentInTurn : List Slice → Stream' Sink → Prop
  | [], _ => True
  | r :: rs, f => ∃ n, TakesWhole (f.get n) r ∧ SentInTurn rs (f.drop (n + 1))

/-- A socket may refuse any number of writes before. -/
theorem SentInTurn.of_drop {rs : List Slice} {f : Stream' Sink} (m : ℕ) (h : SentInTurn rs (f.drop m)) :
    SentInTurn rs f := by
  cases rs with
  | nil => trivial
  | cons r rs =>
    obtain ⟨n, hn, hrest⟩ := h
    rw [Stream'.get_drop] at hn
    rw [Stream'.drop_drop] at hrest
    exact ⟨m + n, hn, hrest⟩

theorem udpLoop_nil {c : UDPConnection} (hl : c.replyList = []) (ks : List Sink) :
    udpWriteLoop c ks = ⟨c, [], .drained⟩ := by
  cases ks with
  | nil => rw [udpWriteLoop, if_pos hl]
  | cons k ks => rw [udpWriteLoop, hl]

/-- The front reply leaves the list or is tried again. -/
theorem udpLoop_stop {c : UDPConnection} {r : Slice} {rest : List Slice} (hl : c.replyList = r :: rest) (k : Sink)
    (ks : List Sink) :
    (udpWriteLoop c (k :: ks)).stop =
      if TakesWhole k r then
        (udpWriteLoop { c with replyList := rest, replyListSize := c.replyListSize - 1 } ks).stop
      else (udpWriteLoop c ks).stop := by
  rw [udpWriteLoop, hl]
  dsimp only
  by_cases htake : TakesWhole k r
  · rw [if_pos htake, if_pos (show toSize _ = _ from htake)]
  · rw [if_neg htake, if_neg (show ¬ toSize _ = _ from htake)]

theorem sentInTurn_of_stop (n : ℕ) : ∀ (c : UDPConnection) (f : Stream' Sink),
    (udpWriteLoop c (f.take n)).stop ≠ .running → SentInTurn c.replyList f := by
  induction n with
  | zero =>
    intro c f h
    rw [Stream'.take_zero, udpWriteLoop] at h
    by_cases hl : c.replyList = []
    · rw [hl]; trivial
    · rw [if_neg hl] at h
      exact absurd rfl h
  | succ n ih =>
    intro c f h
    cases hl : c.replyList with
    | nil => trivial
    | cons r rest =>
      rw [Stream'.take_succ, udpLoop_stop hl] at h
      by_cases htake : TakesWhole f.head r
      · rw [if_pos htake] at h
        exact ⟨0, htake, ih _ f.tail h⟩
      · rw [if_neg htake] at h
        have hsent := ih c f.tail h
        rw [hl] at hsent
        obtain ⟨i, hi, hrest⟩ := hsent
        exact ⟨i + 1, hi, hrest⟩

/-- The front reply leaves the list with one of the first answers. -/
theorem drained_of_front {r : Slice} {rest : List Slice}
    (ih : ∀ (c : UDPConnection) (f : Stream' Sink), c.replyList = rest → SentInTurn rest f →
      ∃ n, (udpWriteLoop c (f.take n)).stop = .drained) (i : ℕ) :
    ∀ (c : UDPConnection) (f : Stream' Sink), c.replyList = r :: rest → TakesWhole (f.get i) r →
      SentInTurn rest (f.drop (i + 1)) → ∃ n, (udpWriteLoop c (f.take n)).stop = .drained := by
  induction i with
  | zero =>
    intro c f hl htake hrest
    obtain ⟨n, hn⟩ := ih { c with replyList := rest, replyListSize := c.replyListSize - 1 } f.tail rfl hrest
    refine ⟨n + 1, ?_⟩
    rw [Stream'.take_succ, udpLoop_stop hl, if_pos htake, hn]
  | succ i ihi =>
    intro c f hl htake hrest
    by_cases hfirst : TakesWhole f.head r
    · have hsent : SentInTurn rest f.tail := SentInTurn.of_drop (i + 1) hrest
      obtain ⟨n, hn⟩ := ih { c with replyList := rest, replyListSize := c.replyListSize - 1 } f.tail rfl hsent
      refine ⟨n + 1, ?_⟩
      rw [Stream'.take_succ, udpLoop_stop hl, if_pos hfirst, hn]
    · obtain ⟨n, hn⟩ := ihi c f.tail hl htake hrest
      refine ⟨n + 1, ?_⟩
      rw [Stream'.take_succ, udpLoop_stop hl, if_neg hfirst, hn]

theorem drained_of_sentInTurn (rs : List Slice) : ∀ (c : UDPConnection) (f : Stream' Sink), c.replyList = rs →
    SentInTurn rs f → ∃ n, (udpWriteLoop c (f.take n)).stop = .drained := by
  induction rs with
  | nil =>
    intro c f hl _
    exact ⟨0, by rw [udpLoop_nil hl]⟩
  | cons r rest ih =>
    intro c f hl hsent
    obtain ⟨i, htake, hrest⟩ := hsent
    exact drained_of_front ih i c f hl htake hrest

theorem udpWriteIo_stop (now : ℕ) (ks : List Sink) (c : UDPConnection) :
    (udpWriteIo now ks c).stop = (udpWriteLoop c ks).stop := by
  unfold udpWriteIo
  dsimp only
  split <;> rfl

/-- **When `udp_write_io` ends.** For any replies and any behaviour of the socket, the loop ends
after finitely many writes exactly if the socket takes the replies in turn, each of them
whole in one write. An error, a socket that would block and a short count all lead to
another try. -/
theorem udp_write_ends_iff (now : ℕ) (c : UDPConnection) (f : Stream' Sink) :
    (∃ n, (udpWriteIo now (f.take n) c).stop ≠ .running) ↔ SentInTurn c.replyList f := by
  constructor
  · rintro ⟨n, hn⟩
    rw [udpWriteIo_stop] at hn
    exact sentInTurn_of_stop n c f hn
  · intro hsent
    obtain ⟨n, hn⟩ := drained_of_sentInTurn c.replyList c f rfl hsent
    refine ⟨n, ?_⟩
    rw [udpWriteIo_stop, hn]
    decide

/-- No answer lets a reply above the kernel's limit on one transfer go. -/
theorem not_takesWhole_of_large {r : Slice} (hlarge : maxRwCount < r.data.length) (hsize : r.data.length < 2 ^ 63)
    (k : Sink) : ¬ TakesWhole k r := by
  unfold TakesWhole
  rcases socketWrite_cases k r.data.length with ⟨-, herr⟩ | ⟨hw, -⟩
  · have herr' : toSize SOCKET_ERR = 2 ^ 64 - 1 := by decide
    rw [herr, herr']
    omega
  · have hcount : (sysWrite k r.data.length).count ≤ maxRwCount := by
      cases k with
      | room n => exact le_trans (min_le_right _ _) (min_le_right _ _)
      | again => exact Nat.zero_le _
      | error => exact Nat.zero_le _
    have hmax : maxRwCount < 2 ^ 31 := by decide
    rw [hw, toSize_nat (by omega)]
    omega

theorem SentInTurn.takesWhole {rs : List Slice} {f : Stream' Sink} (h : SentInTurn rs f) {r : Slice}
    (hr : r ∈ rs) :
    ∃ k, TakesWhole k r := by
  induction rs generalizing f with
  | nil => cases hr
  | cons r' rs ih =>
    obtain ⟨n, hn, hrest⟩ := h
    rcases List.mem_cons.1 hr with rfl | hr
    · exact ⟨_, hn⟩
    · exact ih hrest hr

/-- A reply above the kernel's limit on one transfer keeps the loop running with any socket. -/
theorem large_reply_never_ends {c : UDPConnection} {r : Slice} (hr : r ∈ c.replyList)
    (hlarge : maxRwCount < r.data.length) (hsize : r.data.length < 2 ^ 63) (f : Stream' Sink) (now n : ℕ) :
    (udpWriteIo now (f.take n) c).stop = .running := by
  by_contra hstop
  rw [udpWriteIo_stop] at hstop
  obtain ⟨k, hk⟩ := (sentInTurn_of_stop n c f hstop).takesWhole hr
  exact not_takesWhole_of_large hlarge hsize k hk

/-- A connection with one datagram to send. -/
def oneDatagram : UDPConnection := ⟨(Connection.new ⟨0, .udp, 7⟩).addReply ⟨100, [10], by decide⟩⟩

/-- The kernel refuses the datagram for good. -/
theorem refused_datagram_never_ends : oneDatagram.replyList.length = 1 ∧
    ¬ ∃ n, (udpWriteIo 0 ((Stream'.const Sink.error).take n) oneDatagram).stop ≠ .running := by
  refine ⟨rfl, ?_⟩
  rintro ⟨n, hstop⟩
  rw [udpWriteIo_stop] at hstop
  obtain ⟨i, htake, -⟩ := sentInTurn_of_stop n oneDatagram _ hstop
  exact absurd htake (show ¬ TakesWhole .error _ by decide)

/-! ## TCP -/

/-- A socket that takes all bytes it is offered, up to the kernel's limit on one transfer. -/
def Willing (k : Sink) : Prop := ∀ len, sysWrite k len = .wrote (min len maxRwCount)

/-- What is left to send of each reply. -/
def TCPConnection.parts (c : TCPConnection) : List (List UInt8) :=
  match c.replyList with
  | [] => []
  | r :: rest => r.data.drop c.bytesWritten :: rest.map Slice.data

/-- The call has emptied the list, freed every reply and ended the interest in writing. -/
structure Emptied (c : TCPConnection) (r : WriteRun) : Prop where
  stop : r.stop = .drained
  list : r.conn.replyList = []
  cursor : r.conn.bytesWritten = 0
  freed : r.freed = c.replyList
  write : (r.conn.watcher.active && r.conn.watcher.events.write) = false

theorem parts_nil {c : TCPConnection} (hl : c.replyList = []) : c.parts = [] := by
  unfold TCPConnection.parts; rw [hl]

theorem parts_cons {c : TCPConnection} {r : Slice} {rest : List Slice} (hl : c.replyList = r :: rest) :
    c.parts = r.data.drop c.bytesWritten :: rest.map Slice.data := by
  unfold TCPConnection.parts; rw [hl]

theorem parts_popReply (c : TCPConnection) (rest : List Slice) :
    (c.popReply rest).parts = rest.map Slice.data := by
  cases rest with
  | nil => rfl
  | cons r rest => rw [parts_cons (c := c.popReply (r :: rest)) rfl]; rfl

theorem tcpLoop_nil {c : TCPConnection} (hl : c.replyList = []) (ks : List Sink) :
    tcpWriteLoop c ks = ⟨c, [], [], .drained⟩ := by
  cases ks with
  | nil => rw [tcpWriteLoop, if_pos hl]
  | cons k ks => rw [tcpWriteLoop, hl]

/-- A reply of which nothing is left to send stays on the list, whatever the socket does. -/
theorem not_drained_of_part_nil (ks : List Sink) : ∀ c : TCPConnection, ReplyOK c → [] ∈ c.parts →
    (tcpWriteLoop c ks).stop ≠ .drained := by
  induction ks with
  | nil =>
    intro c _ hnil
    have hl : c.replyList ≠ [] := fun hl => by rw [parts_nil hl] at hnil; cases hnil
    rw [tcpWriteLoop, if_neg hl]
    exact LoopEnd.noConfusion
  | cons k ks ih =>
    intro c h hnil
    cases hl : c.replyList with
    | nil => rw [parts_nil hl] at hnil; cases hnil
    | cons r rest =>
      rw [parts_cons hl, List.mem_cons] at hnil
      rcases loop_cases h hl k ks with hloop | hloop | ⟨hlt, hloop⟩ | ⟨n, -, hn, hloop⟩
      · rw [hloop]; exact LoopEnd.noConfusion
      · rw [hloop]; exact LoopEnd.noConfusion
      · -- the front reply had bytes left, so the empty part is one of the others
        rw [hloop]
        refine ih _ (h.popReply hl) ?_
        rw [parts_popReply]
        refine hnil.resolve_left fun hfront => ?_
        rw [eq_comm, List.drop_eq_nil_iff] at hfront
        omega
      · rw [hloop]
        refine ih _ (h.advance hl hn) ?_
        rw [parts_cons (c := { c with bytesWritten := c.bytesWritten + n }) hl, List.mem_cons]
        refine Or.inr (hnil.resolve_left fun hfront => ?_)
        rw [eq_comm, List.drop_eq_nil_iff] at hfront
        omega

/-- What the loop itself does of it. -/
structure LoopEmptied (c : TCPConnection) (r : WriteRun) : Prop where
  stop : r.stop = .drained
  list : r.conn.replyList = []
  cursor : r.conn.bytesWritten = 0
  freed : r.freed = c.replyList

/-- A willing socket takes all that is left of the front reply, or as much as one transfer can. -/
theorem Willing.wrote {k : Sink} (hk : Willing k) {len : ℕ} (hlen : 0 < len) :
    ∃ n, 0 < n ∧ n ≤ len ∧ socketWrite (sysWrite k len) = n ∧ (sysWrite k len).count = n := by
  have hmax : 0 < maxRwCount ∧ maxRwCount < 2 ^ 31 := by decide
  refine ⟨min len maxRwCount, by omega, by omega, ?_, ?_⟩
  · rw [hk len]
    exact toInt_nat (by omega)
  · rw [hk len]
    rfl

/-- **A willing socket drains the list.** Each write takes a byte at least, so the unsent bytes
get fewer with every iteration. -/
theorem willing_loop (c : TCPConnection) (f : Stream' Sink) (h : ReplyOK c) (hf : ∀ n, Willing (f.get n))
    (hparts : ∀ p ∈ c.parts, p ≠ []) : ∃ n, LoopEmptied c (tcpWriteLoop c (f.take n)) := by
  induction hm : c.unsent.length using Nat.strong_induction_on generalizing c f with
  | _ m ih =>
  cases hl : c.replyList with
  | nil =>
    refine ⟨0, ?_⟩
    rw [tcpLoop_nil hl]
    exact ⟨rfl, hl, h.empty hl, hl.symm⟩
  | cons r rest =>
    rw [parts_cons hl, List.forall_mem_cons] at hparts
    have hoff : c.offered r = (r.data.drop c.bytesWritten).length := by rw [h.offered_eq hl, List.length_drop]
    have hpos : 0 < c.offered r := hoff ▸ List.length_pos_iff.2 hparts.1
    obtain ⟨n, hn0, hn, hw, hcount⟩ := (hf 0).wrote hpos
    rw [unsent_cons hl, List.length_append] at hm
    have htail : ∀ n, Willing (f.tail.get n) := fun n => hf (n + 1)
    -- the front reply is finished and popped, or the cursor moves inside of it
    by_cases hfin : c.bytesWritten + n = r.data.length
    · have hunsent : (c.popReply rest).unsent.length < m := by rw [unsent_popReply]; omega
      have hrest : ∀ p ∈ (c.popReply rest).parts, p ≠ [] := by rw [parts_popReply]; exact hparts.2
      obtain ⟨i, hi⟩ := ih _ hunsent (c.popReply rest) f.tail (h.popReply hl) htail hrest rfl
      refine ⟨i + 1, ?_⟩
      rcases loop_wrote h hl hw hcount hn0 hn (f.tail.take i) with ⟨-, hloop⟩ | ⟨hlt, -⟩
      · rw [Stream'.take_succ]
        change LoopEmptied c (tcpWriteLoop c (f.get 0 :: f.tail.take i))
        rw [hloop]
        exact ⟨hi.stop, hi.list, hi.cursor, by rw [hl]; exact congrArg (r :: ·) hi.freed⟩
      · omega
    · have hlt : c.bytesWritten + n < r.data.length := by rw [List.length_drop] at hoff; omega
      have hok := h.advance hl hlt
      have hunsent : ({ c with bytesWritten := c.bytesWritten + n } : TCPConnection).unsent.length < m := by
        rw [unsent_advance hl, List.length_append, List.length_drop]
        omega
      have hrest : ∀ p ∈ ({ c with bytesWritten := c.bytesWritten + n } : TCPConnection).parts, p ≠ [] := by
        rw [parts_cons (c := { c with bytesWritten := c.bytesWritten + n }) hl, List.forall_mem_cons]
        refine ⟨fun hnil => ?_, hparts.2⟩
        rw [List.drop_eq_nil_iff] at hnil
        simp only at hnil
        omega
      obtain ⟨i, hi⟩ := ih _ hunsent _ f.tail hok htail hrest rfl
      refine ⟨i + 1, ?_⟩
      rcases loop_wrote h hl hw hcount hn0 hn (f.tail.take i) with ⟨hfin', -⟩ | ⟨-, hloop⟩
      · exact absurd hfin' hfin
      · rw [Stream'.take_succ]
        change LoopEmptied c (tcpWriteLoop c (f.get 0 :: f.tail.take i))
        rw [hloop]
        exact ⟨hi.stop, hi.list, hi.cursor, hi.freed⟩

/-- Behind `disable_events` the watcher does not wait for `WRITE`. -/
theorem stopIoEvent_not_write (v : IOWatcher) (fd : ℕ) :
    ((stopIoEvent v fd Mask.WRITE).active && (stopIoEvent v fd Mask.WRITE).events.write) = false := by
  obtain ⟨active, fd, ⟨read, write⟩⟩ := v
  cases read <;> cases write <;> simp [stopIoEvent, Mask.WRITE, Mask.diff, Mask.none]

theorem emptied_of_loop {c : TCPConnection} {ks : List Sink} (h : LoopEmptied c (tcpWriteLoop c ks)) (now : ℕ) :
    Emptied c (tcpWriteIo now ks c) := by
  unfold tcpWriteIo
  dsimp only
  rw [if_pos h.stop]
  exact ⟨h.stop, h.list, h.cursor, h.freed, stopIoEvent_not_write _ _⟩

theorem tcpWriteIo_stop (now : ℕ) (ks : List Sink) (c : TCPConnection) :
    (tcpWriteIo now ks c).stop = (tcpWriteLoop c ks).stop := by
  unfold tcpWriteIo
  dsimp only
  split <;> rfl

/-- **When a willing socket drains the reply list.** With a socket that takes all it is offered,
one call empties the list, sets the cursor to 0, frees every reply and disables `WRITE` exactly if
something is left to send of every reply: the replies are not empty, and the cursor is
before the end of the front one. -/
theorem willing_drains_iff {c : TCPConnection} (h : ReplyOK c) {f : Stream' Sink} (hf : ∀ n, Willing (f.get n))
    (now : ℕ) : (∃ n, Emptied c (tcpWriteIo now (f.take n) c)) ↔ ∀ p ∈ c.parts, p ≠ [] := by
  constructor
  · rintro ⟨n, hn⟩ p hp rfl
    have hstop := hn.stop
    rw [tcpWriteIo_stop] at hstop
    exact not_drained_of_part_nil _ c h hp hstop
  · intro hparts
    obtain ⟨n, hn⟩ := willing_loop c f h hf hparts
    exact ⟨n, emptied_of_loop hn now⟩

/-- A connection to which the replies were added. -/
def withReplies (rs : List Slice) : TCPConnection :=
  runCalls (TCPConnection.start ⟨0, .tcp, 7⟩ 0 false) (rs.map .addReply)

theorem willing_room : Willing (.room maxRwCount) := by
  intro len
  simp only [sysWrite, SysWrite.wrote.injEq]
  omega

/-- A reply of two bytes of which one is sent, and one of three bytes. -/
def halfSent : TCPConnection :=
  { withReplies [⟨100, [10, 11], by decide⟩, ⟨200, [12, 13, 14], by decide⟩] with bytesWritten := 1 }

theorem willing_drains_halfSent :
    ReplyOK halfSent ∧
      ∃ n, Emptied halfSent (tcpWriteIo 9 ((Stream'.const (.room maxRwCount)).take n) halfSent) := by
  have hok : ReplyOK halfSent := by
    refine ⟨rfl, ?_, ?_⟩
    · intro hnil; cases hnil
    · intro r rest hl; cases hl; decide
  exact ⟨hok, (willing_drains_iff hok (fun _ => willing_room) 9).2 (by decide)⟩

/-- An empty reply in front of one byte. -/
def emptyFirst : TCPConnection := withReplies [⟨100, [], by decide⟩, ⟨200, [10], by decide⟩]

/-- The call returns with both replies on the list. -/
theorem empty_reply_blocks :
    ReplyOK emptyFirst ∧
      ∀ n, ¬ Emptied emptyFirst (tcpWriteIo 9 ((Stream'.const (.room maxRwCount)).take n) emptyFirst) := by
  have hok : ReplyOK emptyFirst := by
    refine ⟨rfl, fun _ => rfl, ?_⟩
    intro r rest hl; cases hl; decide
  refine ⟨hok, fun n hn => ?_⟩
  have hstop := hn.stop
  rw [tcpWriteIo_stop] at hstop
  exact not_drained_of_part_nil _ _ hok (by decide) hstop

end Spigeon
