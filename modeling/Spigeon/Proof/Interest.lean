import Spigeon.Lib.Lts
import Spigeon.Proof.Objects

/-!
# Write interest follows the reply list

* `InterestOK`: the watcher of a connection is active for reading, and for writing while
  there are replies.
* `edits_interest`: every event keeps it for every connection.
* `write_settled`: a write event that leaves no replies ends the interest in writing.
* `interest_follows`: both, over every run of a worker.
-/

namespace Spigeon

open Lts

/-- What the watcher of a connection has to wait for. -/
structure InterestOK (c : Connection) : Prop where
  active : c.watcher.active = true
  descr : c.watcher.fd = c.fd
  read : c.watcher.events.read = true
  write : c.replyList ≠ [] → c.watcher.events.write = true

variable {w w' : Worker} {e : WorkerEvent} {id : ℕ} {b : Connection} {c c' : Conn}

/-! ## The watcher -/

theorem startIoEvent_write {v : IOWatcher} (hactive : v.active = true) (hread : v.events.read = true) :
    startIoEvent v v.fd Mask.WRITE = ⟨true, v.fd, ⟨true, true⟩⟩ := by
  obtain ⟨active, fd, ⟨read, write⟩⟩ := v
  subst hactive hread
  cases write <;> rfl

/-- `READ` is left in the mask, so the watcher is started again. -/
theorem stopIoEvent_write {v : IOWatcher} (hactive : v.active = true) (hread : v.events.read = true) :
    stopIoEvent v v.fd Mask.WRITE = ⟨true, v.fd, ⟨true, false⟩⟩ := by
  obtain ⟨active, fd, ⟨read, write⟩⟩ := v
  subst hactive hread
  cases write <;> rfl

theorem start_interest (s : Socket) (now : ℕ) (sslOpen : Bool) :
    InterestOK ((Connection.new s).start now sslOpen) := by
  cases sslOpen <;> exact ⟨rfl, rfl, rfl, fun h => absurd rfl h⟩

theorem addReply_interest (h : InterestOK b) (r : Slice) : InterestOK (b.addReply r) := by
  have hw : (b.addReply r).watcher = ⟨true, b.watcher.fd, ⟨true, true⟩⟩ := by
    unfold Connection.addReply
    rw [← h.descr]
    exact startIoEvent_write h.active h.read
  exact ⟨by rw [hw], by rw [hw]; exact h.descr, by rw [hw], fun _ => by rw [hw]⟩

/-- The end of a write event, once no replies are left. -/
theorem endWrite_interest (h : InterestOK b) (hnil : b.replyList = []) (now : ℕ) :
    InterestOK (b.endWrite now) ∧ (b.endWrite now).watcher.events.write = false := by
  have hw : (b.endWrite now).watcher = ⟨true, b.watcher.fd, ⟨true, false⟩⟩ := by
    unfold Connection.endWrite Connection.disableWrite
    rw [← h.descr]
    exact stopIoEvent_write h.active h.read
  exact ⟨⟨by rw [hw], by rw [hw]; exact h.descr, by rw [hw], fun hne => absurd hnil hne⟩, by rw [hw]⟩

/-! ## Handlers and loops -/

theorem runCalls_interest (calls : List Call) : ∀ c : TCPConnection, InterestOK c.toConnection →
    InterestOK (runCalls c calls).toConnection := by
  induction calls with
  | nil => exact fun c h => h
  | cons k ks ih =>
    intro c h
    refine ih (k.run c) ?_
    cases k with
    | addReply r => exact addReply_interest h r
    | reset st n => exact h
    | expectNext st n => exact h
    | shrinkProcessed st n => exact ⟨h.active, h.descr, h.read, h.write⟩

theorem runUdp_interest (calls : List Call) : ∀ c : UDPConnection, InterestOK c.toConnection →
    InterestOK (calls.foldl Call.runUdp c).toConnection := by
  induction calls with
  | nil => exact fun c h => h
  | cons k ks ih =>
    intro c h
    refine ih (k.runUdp c) ?_
    cases k with
    | addReply r => exact addReply_interest h r
    | reset st n => exact h
    | expectNext st n => exact h
    | shrinkProcessed st n => exact h

/-- Replies taken from the front of the list. -/
theorem InterestOK.take (h : InterestOK b) {rest : List Slice} (hsuf : rest <:+ b.replyList) (size : ℤ) :
    InterestOK { b with replyList := rest, replyListSize := size } := by
  refine ⟨h.active, h.descr, h.read, ?_⟩
  intro hne
  refine h.write ?_
  intro hnil
  rw [hnil, List.suffix_nil] at hsuf
  exact hne hsuf

theorem tcpWriteIo_interest {c : TCPConnection} (h : InterestOK c.toConnection) (now : ℕ) (ks : List Sink) :
    InterestOK (tcpWriteIo now ks c).conn.toConnection ∧
      ((tcpWriteIo now ks c).conn.replyList = [] → (tcpWriteIo now ks c).conn.watcher.events.write = false) := by
  obtain ⟨rest, size, written, hconn, hsuf, hstop⟩ := tcpWriteLoop_shape ks c
  have hloop : InterestOK (tcpWriteLoop c ks).conn.toConnection := by rw [hconn]; exact h.take hsuf size
  have hrest : (tcpWriteLoop c ks).conn.replyList = rest := by rw [hconn]
  unfold tcpWriteIo
  dsimp only
  split
  · rename_i hdrained
    have hend := endWrite_interest hloop (hrest.trans (hstop.1 hdrained)) now
    exact ⟨hend.1, fun _ => hend.2⟩
  · rename_i hopen
    exact ⟨hloop, fun hnil => absurd (hstop.2 (hrest.symm.trans hnil)) hopen⟩

theorem udpWriteIo_interest {c : UDPConnection} (h : InterestOK c.toConnection) (now : ℕ) (ks : List Sink) :
    InterestOK (udpWriteIo now ks c).conn.toConnection ∧
      ((udpWriteIo now ks c).conn.replyList = [] → (udpWriteIo now ks c).conn.watcher.events.write = false) := by
  obtain ⟨rest, size, hconn, hsuf, hstop⟩ := udpWriteLoop_shape ks c
  have hloop : InterestOK (udpWriteLoop c ks).conn.toConnection := by rw [hconn]; exact h.take hsuf size
  have hrest : (udpWriteLoop c ks).conn.replyList = rest := by rw [hconn]
  unfold udpWriteIo
  dsimp only
  split
  · rename_i hdrained
    have hend := endWrite_interest hloop (hrest.trans (hstop.1 hdrained)) now
    exact ⟨hend.1, fun _ => hend.2⟩
  · rename_i hopen
    exact ⟨hloop, fun hnil => absurd (hstop.2 (hrest.symm.trans hnil)) hopen⟩

/-! ## Events -/

theorem stamp_interest (h : InterestOK c.base) (now : ℕ) : InterestOK (c.stamp now).base := by
  cases c <;> exact ⟨h.active, h.descr, h.read, h.write⟩

/-- **Whatever an event does to a connection keeps the interest right.** -/
theorem edits_interest (h : InterestOK c.base) (hedit : Edits w e id c c') : InterestOK c'.base := by
  induction hedit with
  | same c => exact h
  | stamp hedit ih => exact stamp_interest (ih h) w.now
  | @reply c r he => cases c <;> exact addReply_interest h r
  | recv hf hrecv =>
    obtain ⟨buf, rfl⟩ := recv_shape hrecv
    exact ⟨h.active, h.descr, h.read, h.write⟩
  | @handled fd env c c₁ calls ret hf hrecv hready hans =>
    obtain ⟨buf, rfl⟩ := recv_shape hrecv
    exact runCalls_interest calls _ ⟨h.active, h.descr, h.read, h.write⟩
  | dgram hf hrecv =>
    obtain ⟨buf, rfl⟩ := udpRecv_shape hrecv
    exact ⟨h.active, h.descr, h.read, h.write⟩
  | @dgramHandled fd env c c₁ calls ret hf hrecv hans =>
    obtain ⟨buf, rfl⟩ := udpRecv_shape hrecv
    exact runUdp_interest calls _ ⟨h.active, h.descr, h.read, h.write⟩
  | @write fd ks c hf => exact (tcpWriteIo_interest h w.now ks).1
  | @dgramWrite fd ks c hf hstop => exact (udpWriteIo_interest h w.now ks).1

/-- Every connection, a removed one as it was left. -/
def Interested (w : Worker) : Prop := ∀ (i : ℕ) (c : Conn), w.objs[i]? = some c → InterestOK c.base

theorem interested_step (w : Worker) (e : WorkerEvent) (w' : Worker) (h : Interested w)
    (hstep : w.step e = some w') :
    Interested w' := by
  intro i c' hobj
  rcases step_edits hstep hobj with ⟨c, hobj₀, hedit⟩ | ⟨s, -, -, rfl⟩
  · exact edits_interest (h i c hobj₀) hedit
  · unfold Conn.start
    cases s.kind <;> exact start_interest s w.now w.sslOpen

/-- The event is a write event on the connection `id`. -/
def WritesTo (w : Worker) (e : WorkerEvent) (id : ℕ) : Prop :=
  ∃ fd ks, Finds w e (.writeIo fd ks) fd id

/-- A write event that leaves its connection without replies leaves `WRITE` out of the
mask. -/
def WriteSettled (w : Worker) (e : WorkerEvent) : Prop :=
  ∀ id w' c', WritesTo w e id → w.step e = some w' → w'.objs[id]? = some c' → c'.base.replyList = [] →
    c'.base.watcher.events.write = false

theorem write_settled (h : Interested w) : WriteSettled w e := by
  rintro id w' c' ⟨fd, ks, rfl, hhead, hlook⟩ hstep hobj' hnil
  obtain ⟨ts, htodo⟩ : ∃ ts, w.todo = .writeIo fd ks :: ts := by
    cases htodo : w.todo with
    | nil => rw [htodo] at hhead; cases hhead
    | cons t ts => rw [htodo] at hhead; exact ⟨ts, by rw [Option.some.inj hhead]⟩
  simp only [Worker.step, htodo, Worker.exec] at hstep
  rcases writeIo_writes hstep with ⟨hnone, -⟩ | ⟨i, c, hlook', hobj, hw⟩
  · cases hnone.symm.trans hlook
  cases hlook'.symm.trans hlook
  cases hw with
  | fails hstop =>
    cases List.eq_of_set hobj'
    exact (tcpWriteIo_interest (h id _ hobj) w.now ks).2 hnil
  | ends hstop =>
    cases List.eq_of_set hobj'
    exact (tcpWriteIo_interest (h id _ hobj) w.now ks).2 hnil
  | dgrams hstop =>
    cases List.eq_of_set hobj'
    exact (udpWriteIo_interest (h id _ hobj) w.now ks).2 hnil

/-- **Write interest follows the reply list.** In every state of every run of a worker,
the watcher of each connection that was not removed is active on its descriptor with
`READ` in its mask, and with `WRITE` if there are replies; and a write event that
leaves no replies leaves no `WRITE`. -/
theorem interest_follows (timeout : ℕ) (sslOpen : Bool) (now : ℕ) (es : List WorkerEvent) :
    Always Worker.step (fun w => ∀ id ∈ w.watched, ∀ c, w.objs[id]? = some c → InterestOK c.base)
      (Worker.init timeout sslOpen now) es ∧
    Along Worker.step WriteSettled (Worker.init timeout sslOpen now) es := by
  have hinit : Interested (Worker.init timeout sslOpen now) := fun i c hobj => by cases hobj
  have hall : Always Worker.step Interested (Worker.init timeout sslOpen now) es := always interested_step hinit
  refine ⟨hall.mono fun w h id _ c hobj => h id c hobj, ?_⟩
  exact along_of_always (I := Interested) (Q := Interested) interested_step
    (fun w e h _ _ => write_settled h) hinit hall

end Spigeon
