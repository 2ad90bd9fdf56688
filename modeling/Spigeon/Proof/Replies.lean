import Spigeon.Lib.Lists
import Spigeon.Proof.Output
import Spigeon.Proof.Removal
import Spigeon.Spec.Replies

/-!
# Reply buffers are freed once

As long as a connection exists, the buffers given to it are the buffers freed followed by
its reply list, and a buffer is freed when its last byte has gone to the socket. The
destructor frees the rest on TCP and nothing on UDP.

* `loop_frees`, `udp_loop_frees`: what the write loops take off the list they free.
* `AccountOK`: the account of a connection that exists. `account_write` and its
  companions: every callback keeps it.
* `replies_freed`: no buffer is freed twice or too early; all are freed at the end of
  their connection exactly if no UDP connection ends with replies on its list.
-/

namespace Spigeon

open CInt Lifetime Lts

/-! ## The write loops -/

/-- The part of the front reply that the socket has. -/
def TCPConnection.partSent (c : TCPConnection) : List UInt8 :=
  match c.replyList with
  | [] => []
  | r :: _ => r.data.take c.bytesWritten

theorem partSent_unsent (c : TCPConnection) : c.partSent ++ c.unsent = (c.replyList.map Slice.data).flatten := by
  unfold TCPConnection.partSent TCPConnection.unsent
  cases c.replyList with
  | nil => rfl
  | cons r rest => simp only [List.map_cons, List.flatten_cons]; rw [← List.append_assoc, List.take_append_drop]

/-- The TCP loop frees what it takes off the list. -/
theorem loop_frees (ks : List Sink) : ∀ c : TCPConnection, ReplyOK c →
    c.replyList = (tcpWriteLoop c ks).freed ++ (tcpWriteLoop c ks).conn.replyList := by
  induction ks with
  | nil => intro c _; rfl
  | cons k ks ih =>
    intro c h
    cases hl : c.replyList with
    | nil =>
      have hloop : tcpWriteLoop c (k :: ks) = ⟨c, [], [], .drained⟩ := by rw [tcpWriteLoop, hl]
      rw [hloop]; exact hl.symm
    | cons r rest =>
      rcases loop_cases h hl k ks with hloop | hloop | ⟨-, hloop⟩ | ⟨n, -, hn, hloop⟩
      · rw [hloop]; exact hl.symm
      · rw [hloop]; exact hl.symm
      · have hrest := ih _ (h.popReply hl)
        rw [hloop]
        simp only [List.cons_append, ← hrest]
        rfl
      · have hrest := ih _ (h.advance hl hn)
        rw [hloop]; exact hl.symm.trans hrest

/-- A TCP write event adds to the stream what it sends. -/
theorem loop_streams {c : TCPConnection} (h : ReplyOK c) (ks : List Sink) :
    c.partSent ++ (tcpWriteLoop c ks).sent =
      ((tcpWriteLoop c ks).freed.map Slice.data).flatten ++ (tcpWriteLoop c ks).conn.partSent := by
  have hsends := (loop_sends ks c h).2
  have hfrees := loop_frees ks c h
  -- both sides with the unsent rest are the bytes of the whole list
  apply (List.append_left_inj (tcpWriteLoop c ks).conn.unsent).1
  rw [List.append_assoc, hsends, partSent_unsent, List.append_assoc, partSent_unsent, hfrees, List.map_append,
    List.flatten_append]

theorem writeIo_freed (now : ℕ) (ks : List Sink) (c : TCPConnection) :
    (tcpWriteIo now ks c).freed = (tcpWriteLoop c ks).freed := by
  unfold tcpWriteIo
  dsimp only
  split
  · rfl
  · rfl

/-- A UDP write is over when the socket took the reply whole, unless a failed write meets a
reply of `2 ^ 64 - 1` bytes. -/
theorem udp_takes_whole {k : Sink} {r : Slice} (hsize : r.data.length ≠ 2 ^ 64 - 1)
    (h : toSize (socketWrite (sysWrite k r.data.length)) = r.data.length) :
    r.data.take (sysWrite k r.data.length).count = r.data := by
  rcases socketWrite_cases k r.data.length with ⟨-, herr⟩ | ⟨hw, hcount⟩
  · rw [herr] at h
    exact absurd (h.symm.trans (by decide)) hsize
  · have hlt := r.size_lt
    rw [hw, toSize_nat (by omega)] at h
    rw [h, List.take_length]

/-- The UDP loop frees what it takes off the list, each reply after a write that took it
whole. -/
theorem udp_loop_frees (ks : List Sink) : ∀ c : UDPConnection, (∀ r ∈ c.replyList, r.data.length ≠ 2 ^ 64 - 1) →
    c.replyList = (udpWriteLoop c ks).freed ++ (udpWriteLoop c ks).conn.replyList ∧
      ∀ r ∈ (udpWriteLoop c ks).freed, r.data ∈ udpSent c ks := by
  induction ks with
  | nil => intro c _; exact ⟨rfl, fun r hr => by cases hr⟩
  | cons k ks ih =>
    intro c hsize
    rw [udpWriteLoop, udpSent]
    cases hl : c.replyList with
    | nil => exact ⟨hl.symm, fun r hr => by cases hr⟩
    | cons r rest =>
      rw [hl] at hsize
      dsimp only
      by_cases hfin : toSize (socketWrite (sysWrite k r.data.length)) = r.data.length
      · rw [if_pos hfin, if_pos hfin, udp_takes_whole (hsize r List.mem_cons_self) hfin]
        obtain ⟨hlist, hsent⟩ := ih { c with replyList := rest, replyListSize := c.replyListSize - 1 }
          fun r' hr' => hsize r' (List.mem_cons_of_mem _ hr')
        refine ⟨by simp only [List.cons_append, ← hlist], ?_⟩
        intro r' hr'
        rcases List.mem_cons.1 hr' with rfl | hr'
        · exact List.mem_cons_self
        · exact List.mem_cons_of_mem _ (hsent r' hr')
      · rw [if_neg hfin, if_neg hfin]
        obtain ⟨hlist, hsent⟩ := ih c (by rw [hl]; exact hsize)
        exact ⟨hl.symm.trans hlist, fun r' hr' => List.mem_cons_of_mem _ (hsent r' hr')⟩

/-! ## The account of a connection -/

/-- Every reply freed so far went to the socket whole. -/
def SentWhole (a : Account) : Conn → Prop
  | .tcp _ => (a.freed.map Slice.data).flatten <+: a.sent.flatten
  | .udp _ => ∀ r ∈ a.freed, r.data ∈ a.sent

/-- What the socket has been given. -/
def Streamed (a : Account) : Conn → Prop
  | .tcp c => ReplyOK c ∧ a.sent.flatten = (a.freed.map Slice.data).flatten ++ c.partSent
  | .udp _ => ∀ r ∈ a.freed, r.data ∈ a.sent

/-- The account of a connection that exists. -/
structure AccountOK (c : Conn) (a : Account) : Prop where
  owned : a.given = a.freed ++ c.base.replyList
  streamed : Streamed a c

variable {a : Account}

@[simp] theorem account_add_empty : a.add ⟨[], [], []⟩ = a := by simp [Account.add]

theorem account_add_add (b b' : Account) : (a.add b).add b' = a.add (b.add b') := by
  simp [Account.add]

theorem AccountOK.sentWhole {c : Conn} (h : AccountOK c a) : SentWhole a c := by
  have hs := h.streamed
  cases c with
  | tcp c => exact ⟨c.partSent, hs.2.symm⟩
  | udp c => exact hs

theorem AccountOK.freed_prefix {c : Conn} (h : AccountOK c a) : a.freed <+: a.given := ⟨_, h.owned.symm⟩

/-- An operation that touches neither the list nor the cursor. -/
theorem AccountOK.tcp_congr {c c' : TCPConnection} (h : AccountOK (.tcp c) a) (hl : c'.replyList = c.replyList)
    (hs : c'.replyListSize = c.replyListSize) (hw : c'.bytesWritten = c.bytesWritten) :
    AccountOK (.tcp c') a := by
  obtain ⟨howned, hok, hsent⟩ := h
  refine ⟨howned.trans (by rw [show (Conn.tcp c').base.replyList = c.replyList from hl]; rfl),
    hok.congr hl hs hw, hsent.trans ?_⟩
  unfold TCPConnection.partSent
  rw [hl, hw]

theorem AccountOK.stamp {c : Conn} (h : AccountOK c a) (now : ℕ) : AccountOK (c.stamp now) a := by
  cases c with
  | tcp c => exact h.tcp_congr rfl rfl rfl
  | udp c => exact ⟨h.owned, h.streamed⟩

/-- `add_reply` enters the buffer. -/
theorem account_reply {c : Conn} (h : AccountOK c a) (r : Slice) :
    AccountOK (c.addReply r) (a.add ⟨[r], [], []⟩) := by
  have howned : (a.add ⟨[r], [], []⟩).given = (a.add ⟨[r], [], []⟩).freed ++ (c.addReply r).base.replyList := by
    have hlist : (c.addReply r).base.replyList = c.base.replyList ++ [r] := by cases c <;> rfl
    simp only [Account.add]
    rw [hlist, h.owned, List.append_nil, List.append_assoc]
  refine ⟨howned, ?_⟩
  have hs := h.streamed
  cases c with
  | udp c =>
    intro r' hr'
    simp only [Account.add, List.append_nil] at hr' ⊢
    exact hs r' hr'
  | tcp c =>
    obtain ⟨hok, hsent⟩ := hs
    refine ⟨(addReply_output_ok (s := ⟨c, [], c.unsent, false⟩) ⟨hok, rfl⟩ r).toReplyOK, ?_⟩
    -- the cursor stays where it is in the front reply
    have hpart : TCPConnection.partSent { c with toConnection := c.toConnection.addReply r } = c.partSent := by
      unfold TCPConnection.partSent
      cases hl : c.replyList with
      | nil => simp only [Connection.addReply, hl, List.nil_append, hok.empty hl, List.take_zero]
      | cons r₀ rest => simp only [Connection.addReply, hl, List.cons_append]
    simp only [Account.add, List.append_nil]
    exact hsent.trans (congrArg _ hpart.symm)

/-- The calls of a TCP handler. -/
theorem account_calls (calls : List Call) : ∀ (c : TCPConnection) (a : Account), AccountOK (.tcp c) a →
    AccountOK (.tcp (runCalls c calls)) (a.add ⟨calls.filterMap Call.reply, [], []⟩) := by
  induction calls with
  | nil => intro c a h; rw [List.filterMap_nil, account_add_empty]; exact h
  | cons k ks ih =>
    intro c a h
    cases k with
    | addReply r =>
      have hnext := ih ((Call.addReply r).run c) _ (account_reply h r)
      rw [account_add_add] at hnext
      exact hnext
    | _ => exact ih _ _ (h.tcp_congr rfl rfl rfl)

/-- The calls of a UDP handler. -/
theorem account_udp_calls (calls : List Call) : ∀ (c : UDPConnection) (a : Account), AccountOK (.udp c) a →
    AccountOK (.udp (calls.foldl Call.runUdp c)) (a.add ⟨calls.filterMap Call.reply, [], []⟩) := by
  induction calls with
  | nil => intro c a h; rw [List.filterMap_nil, account_add_empty]; exact h
  | cons k ks ih =>
    intro c a h
    cases k with
    | addReply r =>
      have hnext := ih ((Call.addReply r).runUdp c) _ (account_reply h r)
      rw [account_add_add] at hnext
      exact hnext
    | _ => exact ih _ _ h

theorem account_recv {e : ReadEnv} {c c₁ : TCPConnection} (h : AccountOK (.tcp c) a)
    (hrecv : tcpRecv e c = some (.ok c₁)) : AccountOK (.tcp c₁) a := by
  obtain ⟨buf, rfl⟩ := recv_shape hrecv
  exact h.tcp_congr rfl rfl rfl

/-- A UDP read leaves the replies alone. -/
theorem account_dgram {e : DgramEnv} {c c₁ : UDPConnection} (h : AccountOK (.udp c) a)
    (hrecv : udpRecv e c = some c₁) : AccountOK (.udp c₁) a := by
  obtain ⟨buf, rfl⟩ := udpRecv_shape hrecv
  exact ⟨h.owned, h.streamed⟩

/-- **A TCP write event frees what it has sent.** -/
theorem account_write {c : TCPConnection} (h : AccountOK (.tcp c) a) (now : ℕ) (ks : List Sink) :
    AccountOK (.tcp (tcpWriteIo now ks c).conn)
      (a.add ⟨[], [(tcpWriteIo now ks c).sent], (tcpWriteIo now ks c).freed⟩) := by
  obtain ⟨howned, hok, hsent⟩ := h
  obtain ⟨hs, hl, hsize, hw⟩ := writeIo_fields now ks c
  have hloop : AccountOK (.tcp (tcpWriteLoop c ks).conn)
      (a.add ⟨[], [(tcpWriteLoop c ks).sent], (tcpWriteLoop c ks).freed⟩) := by
    refine ⟨?_, (loop_sends ks c hok).1, ?_⟩
    · have hfrees := loop_frees ks c hok
      simp only [Account.add, List.append_nil]
      rw [howned, List.append_assoc]
      exact congrArg _ hfrees
    · simp only [Account.add, List.flatten_append, List.flatten_singleton, List.map_append]
      rw [hsent, List.append_assoc, loop_streams hok, List.append_assoc]
  rw [hs, writeIo_freed]
  exact hloop.tcp_congr hl hsize hw

theorem account_udp_write {c : UDPConnection} (h : AccountOK (.udp c) a) (now : ℕ) (ks : List Sink)
    (hsize : ∀ r ∈ c.replyList, r.data.length ≠ 2 ^ 64 - 1) :
    AccountOK (.udp (udpWriteIo now ks c).conn) (a.add ⟨[], udpSent c ks, (udpWriteIo now ks c).freed⟩) := by
  obtain ⟨howned, hsent⟩ := h
  obtain ⟨hlist, hwhole⟩ := udp_loop_frees ks c hsize
  have hio : (udpWriteIo now ks c).freed = (udpWriteLoop c ks).freed ∧
      (udpWriteIo now ks c).conn.replyList = (udpWriteLoop c ks).conn.replyList := by
    unfold udpWriteIo
    dsimp only
    split
    · exact ⟨rfl, rfl⟩
    · exact ⟨rfl, rfl⟩
  rw [hio.1]
  refine ⟨?_, ?_⟩
  · simp only [Account.add, List.append_nil]
    rw [howned, List.append_assoc, show (Conn.udp (udpWriteIo now ks c).conn).base.replyList = _ from hio.2]
    exact congrArg _ hlist
  · intro r hr
    rcases List.mem_append.1 hr with hr | hr
    · exact List.mem_append_left _ (hsent r hr)
    · exact List.mem_append_right _ (hwhole r hr)

/-! ## The accounts of a worker -/

structure LedgerOK (w : Worker) (accounts : ℕ → Account) : Prop where
  unborn : ∀ id, w.objs.length ≤ id → accounts id = Account.empty
  alive : ∀ id c, w.objs[id]? = some c → Act.drop id ∉ w.acts → AccountOK c (accounts id)
  gone : ∀ id, Act.drop id ∈ w.acts → (accounts id).freed <+: (accounts id).given

variable {w w' : Worker} {acc acc' : ℕ → Account} {id fd : ℕ} {c c' : Conn} {news : List (Act ℕ)}

theorem removed_iff (hacts : w'.acts = w.acts ++ news) (i : ℕ) : w.Removed w' i ↔ Act.drop i ∈ news := by
  unfold Worker.Removed
  rw [hacts, List.drop_left]

theorem settle_kept (hacts : w'.acts = w.acts ++ news) {i : ℕ} (hi : Act.drop i ∉ news) :
    Ledger.settle w w' acc i = acc i := by
  unfold Ledger.settle
  rw [if_neg (fun h => hi ((removed_iff hacts i).1 h))]

theorem settle_removed (hacts : w'.acts = w.acts ++ news) (hid : Act.drop id ∈ news)
    (hobj : w'.objs[id]? = some c) :
    Ledger.settle w w' acc id = (acc id).close c.destroy := by
  unfold Ledger.settle
  rw [if_pos ((removed_iff hacts id).2 hid), hobj]
  rfl

/-- How the accounts go on with a step: those of removed connections stay as they are, and
a connection removed now has had its destructor run. -/
structure Follows (w : Worker) (acc : ℕ → Account) (w' : Worker) (acc' : ℕ → Account) : Prop where
  unborn : ∀ id, w'.objs.length ≤ id → acc' id = Account.empty
  alive : ∀ id c, w'.objs[id]? = some c → Act.drop id ∉ w'.acts → AccountOK c (acc' id)
  kept : ∀ id, Act.drop id ∈ w.acts → acc' id = acc id
  drops : ∀ id, Act.drop id ∈ w'.acts → Act.drop id ∈ w.acts ∨ w.Removed w' id
  removed : ∀ id, w.Removed w' id → ∃ c a, w'.objs[id]? = some c ∧ AccountOK c a ∧ acc' id = a.close c.destroy

/-- The destructor frees the list on TCP, and nothing on UDP. -/
theorem close_freed (h : AccountOK c a) :
    (a.close c.destroy).freed <+: (a.close c.destroy).given ∧
      ((a.close c.destroy).freed = (a.close c.destroy).given ↔ ∀ u, c = .udp u → u.replyList = []) := by
  have howned := h.owned
  cases c with
  | tcp c =>
    have hall : (a.close (Conn.tcp c).destroy).freed = (a.close (Conn.tcp c).destroy).given := howned.symm
    rw [hall]
    refine ⟨List.prefix_rfl, ⟨?_, fun _ => rfl⟩⟩
    rintro - u hu
    cases hu
  | udp c =>
    have hfreed : (a.close (Conn.udp c).destroy).freed = a.freed := List.append_nil _
    have hgiven : (a.close (Conn.udp c).destroy).given = a.freed ++ c.replyList := howned
    rw [hfreed, hgiven]
    refine ⟨List.prefix_append _ _, ?_, ?_⟩
    · rintro he u hu
      cases hu
      exact List.self_eq_append_right.1 he
    · intro hnil
      rw [hnil c rfl, List.append_nil]

theorem Follows.ok (hf : Follows w acc w' acc') (h : LedgerOK w acc) : LedgerOK w' acc' := by
  refine ⟨hf.unborn, hf.alive, ?_⟩
  intro i hi
  rcases hf.drops i hi with hold | hrem
  · rw [hf.kept i hold]; exact h.gone i hold
  · obtain ⟨c, a, -, hok, hclose⟩ := hf.removed i hrem
    rw [hclose]; exact (close_freed hok).1

/-- Nothing happens to a connection. -/
theorem LedgerOK.idle (h : LedgerOK w acc) (hobjs : w'.objs = w.objs) (hacts : w'.acts = w.acts ++ news)
    (hnews : ∀ i, Act.drop i ∉ news) : Follows w acc w' (Ledger.settle w w' acc) := by
  have hdrop : ∀ i, Act.drop i ∈ w'.acts ↔ Act.drop i ∈ w.acts := by
    intro i; rw [hacts, List.mem_append, or_iff_left (hnews i)]
  refine ⟨?_, ?_, ?_, ?_, ?_⟩
  · intro i hi; rw [settle_kept hacts (hnews i)]; exact h.unborn i (by rw [← hobjs]; exact hi)
  · intro i c hobj hlive
    rw [settle_kept hacts (hnews i)]
    exact h.alive i c (by rw [← hobjs]; exact hobj) (fun hd => hlive ((hdrop i).2 hd))
  · intro i hi; exact settle_kept hacts (hnews i)
  · intro i hi; exact Or.inl ((hdrop i).1 hi)
  · intro i hi; exact absurd ((removed_iff hacts i).1 hi) (hnews i)

/-- A callback works on a connection and leaves it there or removes it. -/
theorem LedgerOK.work (h : LedgerOK w acc) (hobj : w.objs[id]? = some c) (hlive : Act.drop id ∉ w.acts)
    (hobjs : w'.objs = w.objs.set id c') (hacts : w'.acts = w.acts ++ news)
    (hnews : ∀ i, Act.drop i ∈ news → i = id) (hother : ∀ i, i ≠ id → acc' i = acc i)
    (hok : AccountOK c' (acc' id)) : Follows w acc w' (Ledger.settle w w' acc') := by
  have hlt := (List.getElem?_eq_some_iff.1 hobj).1
  have hobj' : w'.objs[id]? = some c' := by rw [hobjs, List.getElem?_set, if_pos rfl, if_pos hlt]
  have hkept : ∀ i, i ≠ id → Ledger.settle w w' acc' i = acc i := by
    intro i hne
    rw [settle_kept hacts (fun hd => hne (hnews i hd)), hother i hne]
  have hdrop : ∀ i, Act.drop i ∈ w'.acts ↔ Act.drop i ∈ w.acts ∨ Act.drop i ∈ news := by
    intro i; rw [hacts, List.mem_append]
  refine ⟨?_, ?_, ?_, ?_, ?_⟩
  · intro i hi
    rw [hobjs, List.length_set] at hi
    rw [hkept i (by omega)]
    exact h.unborn i hi
  · intro i c₀ hobj₀ hlive₀
    rw [hobjs] at hobj₀
    rcases List.set_cases hobj₀ with ⟨rfl, rfl⟩ | ⟨hne, hobj₀⟩
    · rw [settle_kept hacts fun hd => hlive₀ ((hdrop i).2 (Or.inr hd))]
      exact hok
    · rw [hkept i hne]
      exact h.alive i c₀ hobj₀ fun hd => hlive₀ ((hdrop i).2 (Or.inl hd))
  · intro i hi; exact hkept i (by rintro rfl; exact hlive hi)
  · intro i hi
    rw [removed_iff hacts]
    exact (hdrop i).1 hi
  · intro i hi
    have hnew := (removed_iff hacts i).1 hi
    obtain rfl := hnews i hnew
    exact ⟨c', acc' i, hobj', hok, settle_removed hacts hnew hobj'⟩

/-! ## Callbacks -/

/-- Work on a connection that ends with `close_conn`. -/
theorem LedgerOK.closes (h : LedgerOK w acc) (hobj : w.objs[id]? = some c) (hlive : Act.drop id ∉ w.acts)
    (hother : ∀ i, i ≠ id → acc' i = acc i) (hok : AccountOK c' (acc' id)) (bytes : List UInt8) :
    Follows w acc ((w.visit id c' bytes).closeConn id c')
      (Ledger.settle w ((w.visit id c' bytes).closeConn id c') acc') := by
  have hobjs : ((w.visit id c' bytes).closeConn id c').objs = w.objs.set id (c'.stamp w.now) := List.set_set _
  have hacts : ((w.visit id c' bytes).closeConn id c').acts = w.acts ++ [.use id, .use id, .drop id] := by
    simp [Worker.closeConn, Worker.push, Worker.removeConn, Worker.act, Worker.visit]
  exact h.work hobj hlive hobjs hacts (fun i => by simp) hother (hok.stamp w.now)

theorem LedgerOK.close (h : LedgerOK w acc) (hobj : w.objs[id]? = some c) (hlive : Act.drop id ∉ w.acts) :
    Follows w acc (w.closeConn id c) (Ledger.settle w (w.closeConn id c) acc) := by
  have hobjs : (w.closeConn id c).objs = w.objs.set id (c.stamp w.now) := rfl
  have hacts : (w.closeConn id c).acts = w.acts ++ [.use id, .drop id] := by
    simp [Worker.closeConn, Worker.push, Worker.removeConn, Worker.act]
  exact h.work hobj hlive hobjs hacts (fun i => by simp) (fun _ _ => rfl) ((h.alive id c hobj hlive).stamp w.now)

/-- Work on a connection that leaves it there. -/
theorem LedgerOK.stays (h : LedgerOK w acc) (hobj : w.objs[id]? = some c) (hlive : Act.drop id ∉ w.acts)
    (hobjs : w'.objs = w.objs.set id c') (hacts : w'.acts = w.acts ++ [.use id])
    (hother : ∀ i, i ≠ id → acc' i = acc i) (hok : AccountOK c' (acc' id)) :
    Follows w acc w' (Ledger.settle w w' acc') :=
  h.work hobj hlive hobjs hacts (fun i => by simp) hother hok

theorem enter_other {b : Account} {i : ℕ} (hne : i ≠ id) : Ledger.enter acc (some (id, b)) i = acc i := if_neg hne

theorem enter_self {b : Account} : Ledger.enter acc (some (id, b)) id = (acc id).add b := if_pos rfl

theorem read_follows {env : IoEnv} (h : LedgerOK w acc) (hlook : w.lookup fd = some id)
    (hobj : w.objs[id]? = some c) (hlive : Act.drop id ∉ w.acts) (hno : ¬ HandlerRemoves w fd env)
    (hr : Reads w id env c w') :
    Follows w acc w' (Ledger.settle w w' (Ledger.enter acc (w.deals (.readIo fd env)))) := by
  have hacc := h.alive id c hobj hlive
  cases hr with
  | fails hrecv =>
    have hdeal : w.deals (.readIo fd env) = none := by
      simp only [Worker.deals, hlook, hobj, Option.bind_some, hrecv]
    rw [hdeal]
    exact h.closes hobj hlive (fun _ _ => rfl) hacc []
  | waits hrecv hwait =>
    have hdeal : w.deals (.readIo fd env) = none := by
      simp only [Worker.deals, hlook, hobj, Option.bind_some, hrecv, if_neg hwait]
    rw [hdeal]
    exact h.stays hobj hlive rfl rfl (fun _ _ => rfl) (account_recv hacc hrecv)
  | handled hrecv hready =>
    have hdeal : w.deals (.readIo fd env) = some (id, ⟨env.answer.replies, [], []⟩) := by
      simp only [Worker.deals, hlook, hobj, Option.bind_some, hrecv, if_pos hready]
    rw [hdeal]
    cases hans : env.answer with
    | leave calls ret =>
      refine h.stays hobj hlive rfl rfl (fun i => enter_other) ?_
      rw [enter_self]
      exact account_calls calls _ _ (account_recv hacc hrecv)
    -- the handler removes the connection itself: excluded by `hno`
    | close => exact absurd ⟨id, _, _, hlook, hobj, hrecv, hready, by rw [hans]; rfl⟩ hno
    | remove => exact absurd ⟨id, _, _, hlook, hobj, hrecv, hready, by rw [hans]; rfl⟩ hno
  | dgram hrecv =>
    have hdeal : w.deals (.readIo fd env) = some (id, ⟨env.answer.replies, [], []⟩) := by
      simp only [Worker.deals, hlook, hobj, Option.bind_some]
    have hnone : (Ledger.enter acc (some (id, ⟨[], [], []⟩))) id = acc id := by rw [enter_self, account_add_empty]
    have hacc₁ := account_dgram hacc hrecv
    rw [hdeal]
    cases hans : env.answer with
    | leave calls ret =>
      refine h.stays hobj hlive rfl rfl (fun i => enter_other) ?_
      rw [enter_self]
      exact account_udp_calls calls _ _ hacc₁
    | close => exact h.closes hobj hlive (fun i => enter_other) (by rw [Answer.replies, hnone]; exact hacc₁) []
    | remove =>
      rename_i c₁
      have hobjs : (w.udpProcess id c₁ .remove).objs = w.objs.set id ((Conn.udp c₁).stamp w.now) := List.set_set _
      have hacts : (w.udpProcess id c₁ .remove).acts = w.acts ++ [.use id, .drop id] := by
        simp [Worker.udpProcess, Worker.removeConn, Worker.visit]
      refine h.work hobj hlive hobjs hacts (fun i => by simp) (fun i => enter_other) ?_
      rw [Answer.replies, hnone]; exact hacc₁.stamp w.now

/-- The task writes to a UDP connection that has a reply of `2 ^ 64 - 1` bytes, the value
of a failed write as a `size_t`. -/
def SpansMemory (w : Worker) : Task → Prop
  | .writeIo fd _ => ∃ id c, w.lookup fd = some id ∧ w.objs[id]? = some (.udp c) ∧
      ∃ r ∈ c.replyList, r.data.length = 2 ^ 64 - 1
  | _ => False

instance (w : Worker) : ∀ t : Task, Decidable (SpansMemory w t)
  | .writeIo fd _ =>
    match hl : w.lookup fd with
    | none => isFalse fun ⟨_, _, h, _⟩ => by rw [hl] at h; cases h
    | some i =>
      match ho : w.objs[i]? with
      | none => isFalse fun ⟨_, _, h, h', _⟩ => by rw [hl] at h; cases h; rw [ho] at h'; cases h'
      | some (.tcp _) => isFalse fun ⟨_, _, h, h', _⟩ => by rw [hl] at h; cases h; rw [ho] at h'; cases h'
      | some (.udp c) =>
        decidable_of_iff (∃ r ∈ c.replyList, r.data.length = 2 ^ 64 - 1)
          ⟨fun h => ⟨i, c, hl, ho, h⟩, fun ⟨_, _, h, h', hh⟩ => by
            rw [hl] at h; cases h; rw [ho] at h'; cases h'; exact hh⟩
  | .readIo _ _ => isFalse fun h => h
  | .returned _ _ => isFalse fun h => h
  | .close _ _ => isFalse fun h => h
  | .closeSlot _ => isFalse fun h => h

theorem write_follows {ks : List Sink} (h : LedgerOK w acc) (hlook : w.lookup fd = some id)
    (hobj : w.objs[id]? = some c) (hlive : Act.drop id ∉ w.acts) (hsize : ¬ SpansMemory w (.writeIo fd ks))
    (hw : Writes w id ks c w') :
    Follows w acc w' (Ledger.settle w w' (Ledger.enter acc (w.deals (.writeIo fd ks)))) := by
  have hacc := h.alive id c hobj hlive
  cases hw with
  | fails hstop =>
    rename_i c
    have hdeal : w.deals (.writeIo fd ks) =
        some (id, ⟨[], [(tcpWriteIo w.now ks c).sent], (tcpWriteIo w.now ks c).freed⟩) := by
      simp only [Worker.deals, hlook, hobj, Option.bind_some, Option.map_some]
    rw [hdeal]
    refine h.closes hobj hlive (fun i => enter_other) ?_ _
    rw [enter_self]
    exact account_write hacc w.now ks
  | ends hstop =>
    rename_i c
    have hdeal : w.deals (.writeIo fd ks) =
        some (id, ⟨[], [(tcpWriteIo w.now ks c).sent], (tcpWriteIo w.now ks c).freed⟩) := by
      simp only [Worker.deals, hlook, hobj, Option.bind_some, Option.map_some]
    rw [hdeal]
    refine h.stays hobj hlive rfl rfl (fun i => enter_other) ?_
    rw [enter_self]
    exact account_write hacc w.now ks
  | dgrams hstop =>
    rename_i c
    have hdeal : w.deals (.writeIo fd ks) = some (id, ⟨[], udpSent c ks, (udpWriteIo w.now ks c).freed⟩) := by
      simp only [Worker.deals, hlook, hobj, Option.bind_some, Option.map_some]
    rw [hdeal]
    refine h.stays hobj hlive rfl rfl (fun i => enter_other) ?_
    rw [enter_self]
    exact account_udp_write hacc w.now ks fun r hr he => hsize ⟨id, c, hlook, hobj, r, hr, he⟩

/-- `process_timeout`. -/
theorem timer_follows (h : LedgerOK w acc) (hobj : w.objs[id]? = some c) (hlive : Act.drop id ∉ w.acts) :
    Follows w acc (w.processTimeout id c) (Ledger.settle w (w.processTimeout id c) acc) := by
  have hacc := h.alive id c hobj hlive
  unfold Worker.processTimeout
  dsimp only
  split
  · -- the record of the decision changes nothing here
    have hclose := h.closes hobj hlive (fun _ _ => rfl) hacc []
    exact ⟨hclose.unborn, hclose.alive, hclose.kept, hclose.drops, hclose.removed⟩
  · exact h.stays hobj hlive rfl rfl (fun _ _ => rfl) hacc

/-- A new connection has an empty account. -/
theorem create_follows (h : LedgerOK w acc) (sk : Socket) :
    Follows w acc (w.createConnection sk) (Ledger.settle w (w.createConnection sk) acc) := by
  have hacts : (w.createConnection sk).acts = w.acts ++ [] := (List.append_nil _).symm
  have hkept : ∀ i, Ledger.settle w (w.createConnection sk) acc i = acc i := fun i => settle_kept hacts (by simp)
  have hnew : ∃ c, (w.createConnection sk).objs = w.objs ++ [c] ∧ AccountOK c Account.empty := by
    unfold Worker.createConnection
    cases sk.kind with
    | tcp => exact ⟨_, rfl, rfl, (init_output_ok sk w.now w.sslOpen).toReplyOK, rfl⟩
    | udp => exact ⟨_, rfl, rfl, fun r hr => by cases hr⟩
  obtain ⟨c₀, hobjs, hc₀⟩ := hnew
  refine ⟨?_, ?_, fun i _ => hkept i, fun i hi => Or.inl hi, fun i hi => ?_⟩
  · intro i hi
    rw [hobjs, List.length_append] at hi
    rw [hkept]; exact h.unborn i (by omega)
  · intro i c hobj hlive
    rw [hkept]
    rw [hobjs] at hobj
    rcases List.concat_cases hobj with hobj | ⟨rfl, rfl⟩
    · exact h.alive i c hobj hlive
    · rw [h.unborn _ le_rfl]
      exact hc₀
  · cases (removed_iff hacts i).1 hi

/-- A task that touches no connection. -/
theorem LedgerOK.passes (h : LedgerOK w acc) (hobjs : w'.objs = w.objs) (hacts : w'.acts = w.acts) :
    Follows w acc w' (Ledger.settle w w' acc) :=
  h.idle hobjs (hacts.trans (List.append_nil _).symm) fun _ hd => nomatch hd

/-- **The next task of the running callback.** -/
theorem task_follows {t : Task} (h : LedgerOK w acc) (hslot : ∀ fd i, w.lookup fd = some i → Act.drop i ∉ w.acts)
    (hret : ∀ i ret, t = .returned i ret → Act.drop i ∉ w.acts) (hno : ¬ TaskRemoves w t)
    (hsize : ¬ SpansMemory w t)
    (hexec : w.exec t = some w') : Follows w acc w' (Ledger.settle w w' (Ledger.enter acc (w.deals t))) := by
  cases t with
  | readIo fd env =>
    rcases readIo_reads hexec with ⟨hlook, rfl⟩ | ⟨i, c, hlook, hobj, hr⟩
    · rw [Worker.deals, hlook, Option.bind_none]
      exact h.passes rfl rfl
    · exact read_follows h hlook hobj (hslot fd i hlook) hno hr
  | writeIo fd ks =>
    rcases writeIo_writes hexec with ⟨hlook, rfl⟩ | ⟨i, c, hlook, hobj, hw⟩
    · rw [Worker.deals, hlook, Option.bind_none]
      exact h.passes rfl rfl
    · exact write_follows h hlook hobj (hslot fd i hlook) hsize hw
  | returned i ret =>
    simp only [Worker.exec] at hexec
    split at hexec
    · obtain ⟨c, hobj, rfl⟩ := Option.map_eq_some_iff.1 hexec
      exact h.close hobj (hret i ret rfl)
    · rw [← Option.some.inj hexec]
      exact h.passes rfl rfl
  | close i fd =>
    rw [← Option.some.inj hexec]
    have hacts : (w.act (.shut i)).acts = w.acts ++ [.shut i] := rfl
    exact h.idle rfl hacts (fun j => by simp)
  | closeSlot fd =>
    simp only [Worker.exec] at hexec
    cases hlook : w.lookup fd with
    | none =>
      rw [hlook] at hexec
      rw [← Option.some.inj hexec]
      exact h.passes rfl rfl
    | some i =>
      rw [hlook] at hexec
      obtain ⟨c, hobj, rfl⟩ := Option.map_eq_some_iff.1 hexec
      exact h.close hobj (hslot fd i hlook)

/-- **Every event of a worker.** -/
theorem step_follows {e : WorkerEvent} (h : LedgerOK w acc) (hinv : WorkerInv w) (hno : ¬ Runs TaskRemoves w e)
    (hsize : ¬ Runs SpansMemory w e) (hst : w.step e = some w') :
    Follows w acc w' (Ledger.settle w w' (Ledger.enter acc (w.dealt e))) := by
  have hlive : ∀ {i}, i ∈ w.watched → Act.drop i ∉ w.acts := fun hi => (hinv.1.live _ hi).1
  have hmove := worker_moves hst
  cases hmove with
  | next htodo hexec =>
    rename_i t ts
    have hdealt : w.dealt .next = w.deals t := by rw [Worker.dealt, htodo, List.head?_cons, Option.bind_some]
    have hdeals : Worker.deals { w with todo := ts } t = w.deals t := by cases t <;> rfl
    have hret : ∀ i ret, t = .returned i ret → Act.drop i ∉ w.acts := by
      rintro i ret rfl
      exact hlive (returned_watched hinv htodo)
    -- the tasks behind this one do not matter
    have hpop : LedgerOK { w with todo := ts } acc := ⟨h.unborn, h.alive, h.gone⟩
    have hf := task_follows hpop (fun fd i hlook => hlive (hinv.1.slot fd i hlook).1) hret
      (fun hr => hno (runs_next htodo hr)) (fun hs => hsize (runs_next htodo hs)) hexec
    rw [hdeals] at hf
    rw [hdealt]
    exact ⟨hf.unborn, hf.alive, hf.kept, hf.drops, hf.removed⟩
  | clock _ => exact h.passes rfl rfl
  | create _ => exact create_follows h _
  | io _ _ => exact h.passes rfl rfl
  | timer _ hid hobj => exact timer_follows h hobj (hlive hid)
  | reply _ hid hobj =>
    refine h.stays hobj (hlive hid) rfl rfl (fun i => enter_other) ?_
    rw [Worker.dealt, enter_self]
    exact account_reply (h.alive _ _ hobj (hlive hid)) _
  | stop _ _ => exact h.passes rfl rfl

/-! ## Runs -/

/-- No buffer is freed twice, and as long as its connection exists none before the socket
has its last byte. -/
def FreedInOrder (l : Ledger) : Prop :=
  ∀ id c, l.worker.objs[id]? = some c →
    (l.accounts id).freed <+: (l.accounts id).given ∧
      (Act.drop id ∉ l.worker.acts →
        (l.accounts id).given = (l.accounts id).freed ++ c.base.replyList ∧ SentWhole (l.accounts id) c)

/-- All buffers of the connections that were destroyed have been freed. -/
def FreedAtEnd (l : Ledger) : Prop :=
  ∀ id, Act.drop id ∈ l.worker.acts → (l.accounts id).freed = (l.accounts id).given

/-- The event destroys a UDP connection with replies on its list. -/
def DropsReplies (l : Ledger) (e : WorkerEvent) : Prop :=
  ∃ w id c, l.worker.step e = some w ∧ l.worker.Removed w id ∧ w.objs[id]? = some (.udp c) ∧ c.replyList ≠ []

/-- The condition on the events of a run. -/
def Regular (l : Ledger) (e : WorkerEvent) : Prop :=
  ¬ Runs TaskRemoves l.worker e ∧ ¬ Runs SpansMemory l.worker e

instance (l : Ledger) (e : WorkerEvent) : Decidable (Regular l e) := inferInstanceAs (Decidable (_ ∧ _))

def LedgerInv (l : Ledger) : Prop := WorkerInv l.worker ∧ LedgerOK l.worker l.accounts

variable {l l' : Ledger} {e : WorkerEvent}

theorem ledger_step (hst : l.step e = some l') :
    l.worker.step e = some l'.worker ∧
      l'.accounts = Ledger.settle l.worker l'.worker (Ledger.enter l.accounts (l.worker.dealt e)) := by
  obtain ⟨w, hw, rfl⟩ := Option.map_eq_some_iff.1 hst
  exact ⟨hw, rfl⟩

theorem ledger_follows (h : LedgerInv l) (hreg : Regular l e) (hst : l.step e = some l') :
    Follows l.worker l.accounts l'.worker l'.accounts := by
  obtain ⟨hw, hacc⟩ := ledger_step hst
  rw [hacc]
  exact step_follows h.2 h.1 hreg.1 hreg.2 hw

theorem step_ledger_inv (l : Ledger) (e : WorkerEvent) (l' : Ledger) (h : LedgerInv l) (hreg : Regular l e)
    (hst : l.step e = some l') : LedgerInv l' :=
  ⟨step_worker_ok h.1 hreg.1 (ledger_step hst).1, (ledger_follows h hreg hst).ok h.2⟩

theorem init_ledger_inv (timeout : ℕ) (ssl : Bool) (now : ℕ) : LedgerInv (Ledger.init timeout ssl now) := by
  refine ⟨init_worker_ok timeout ssl now, fun _ _ => rfl, ?_, ?_⟩
  · intro i c hobj _; cases hobj
  · intro i hi; cases hi

/-- Buffers are left at the end of a connection by the destructor of a UDP connection only. -/
theorem freedAtEnd_step (h : LedgerInv l) (hreg : Regular l e) (hst : l.step e = some l') (hend : FreedAtEnd l) :
    FreedAtEnd l' ↔ ¬ DropsReplies l e := by
  have hw := (ledger_step hst).1
  have hf := ledger_follows h hreg hst
  constructor
  · rintro hend' ⟨w, i, c, hw', hrem, hobj, hne⟩
    obtain rfl : l'.worker = w := Option.some.inj (hw.symm.trans hw')
    obtain ⟨c', a, hobj', hok, hclose⟩ := hf.removed i hrem
    rw [hobj', Option.some.injEq] at hobj
    have hall := hend' i (List.mem_of_mem_drop hrem)
    rw [hclose] at hall
    exact hne ((close_freed hok).2.1 hall c hobj)
  · intro hno i hi
    rcases hf.drops i hi with hold | hrem
    · rw [hf.kept i hold]; exact hend i hold
    · obtain ⟨c, a, hobj, hok, hclose⟩ := hf.removed i hrem
      rw [hclose]
      refine (close_freed hok).2.2 ?_
      rintro u rfl
      by_contra hne
      exact hno ⟨l'.worker, i, u, hw, hrem, hobj, hne⟩

/-- **Reply buffers.** In every run in which no TCP handler removes its own connection and
no UDP write meets a reply that fills the address space, no buffer is freed twice and none
before its last byte has gone to the socket, unless the connection is destroyed; and the
end of a connection finds all its buffers freed exactly if no UDP connection is destroyed
with replies on its list. -/
theorem replies_freed (timeout : ℕ) (ssl : Bool) (now : ℕ) {es : List WorkerEvent}
    (hreg : Along Ledger.step Regular (Ledger.init timeout ssl now) es) :
    Always Ledger.step FreedInOrder (Ledger.init timeout ssl now) es ∧
      (Always Ledger.step FreedAtEnd (Ledger.init timeout ssl now) es ↔
        Along Ledger.step (fun l e => ¬ DropsReplies l e) (Ledger.init timeout ssl now) es) := by
  have hinit := init_ledger_inv timeout ssl now
  refine ⟨(always_along step_ledger_inv hinit hreg).mono ?_, ?_⟩
  · intro l h i c hobj
    by_cases hlive : Act.drop i ∈ l.worker.acts
    · exact ⟨h.2.gone i hlive, fun hn => absurd hlive hn⟩
    · have hacc := h.2.alive i c hobj hlive
      exact ⟨hacc.freed_prefix, fun _ => ⟨hacc.owned, hacc.sentWhole⟩⟩
  · have hnone : FreedAtEnd (Ledger.init timeout ssl now) := fun i hi => by cases hi
    refine always_iff_along step_ledger_inv (fun l e l' h hr hend hst => freedAtEnd_step h hr hst hend) ?_ hinit
      hnone hreg
    intro l e _ _ hdrops
    obtain ⟨w, _, _, hw, _⟩ := not_not.1 hdrops
    exact ⟨⟨w, _⟩, Option.map_eq_some_iff.2 ⟨w, hw, rfl⟩⟩

/-- A reply of two bytes in the buffer at an address. -/
def replyAt (addr : ℕ) : Slice := ⟨addr, [1, 2], by decide⟩

/-- Two replies; the first is sent and freed, the second is freed with its connection. -/
def partialWrite : List WorkerEvent :=
  [.create ⟨0, .tcp, 7⟩, .reply 0 (replyAt 100), .reply 0 (replyAt 200),
    .io 0 false true ⟨fun _ => 0, .again, .again, .leave [] 0⟩ [.room 2, .room 1, .again], .next,
    .clock 61, .timer 0]

theorem replies_freed_partialWrite :
    ∃ l, run Ledger.step (Ledger.init 60 false 0) partialWrite = some l ∧
      (l.accounts 0).sent.flatten = [1, 2, 1] ∧ (l.accounts 0).freed = [replyAt 100, replyAt 200] ∧
      FreedInOrder l := by
  have hmap : (run Ledger.step (Ledger.init 60 false 0) partialWrite).map
      (fun l => ((l.accounts 0).sent.flatten, (l.accounts 0).freed)) =
        some ([1, 2, 1], [replyAt 100, replyAt 200]) := by decide +kernel
  obtain ⟨l, hrun, hv⟩ := Option.map_eq_some_iff.1 hmap
  simp only [Prod.mk.injEq] at hv
  exact ⟨l, hrun, hv.1, hv.2, (replies_freed 60 false 0 (by decide +kernel)).1.last hrun⟩

/-- A UDP connection with a reply on its list times out, and the buffer is lost. -/
theorem udp_timeout_leaks :
    ∃ l, run Ledger.step (Ledger.init 60 false 0)
        [.create ⟨0, .udp, 7⟩, .reply 0 (replyAt 100), .clock 61, .timer 0, .next] = some l ∧
      l.worker.acts = [.use 0, .use 0, .use 0, .drop 0, .shut 0] ∧ (l.accounts 0).given = [replyAt 100] ∧
      (l.accounts 0).freed = [] ∧ ¬ FreedAtEnd l := by
  have hmap : (run Ledger.step (Ledger.init 60 false 0)
      [.create ⟨0, .udp, 7⟩, .reply 0 (replyAt 100), .clock 61, .timer 0, .next]).map
        (fun l => (l.worker.acts, (l.accounts 0).given, (l.accounts 0).freed)) =
          some ([.use 0, .use 0, .use 0, .drop 0, .shut 0], [replyAt 100], []) := by decide +kernel
  obtain ⟨l, hrun, hv⟩ := Option.map_eq_some_iff.1 hmap
  simp only [Prod.mk.injEq] at hv
  obtain ⟨hacts, hgiven, hfreed⟩ := hv
  refine ⟨l, hrun, hacts, hgiven, hfreed, fun hend => ?_⟩
  have hall := hend 0 (by rw [hacts]; decide)
  rw [hgiven, hfreed] at hall
  cases hall

end Spigeon
