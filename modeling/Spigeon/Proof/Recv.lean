import Spigeon.Lib.Lts
import Spigeon.Proof.Sds
import Spigeon.Spec.Input

/-!
# What a TCP read event does to its connection

* `recv_close`: why `tcp_read_io` closes before it gets to the handler, whatever the
  connection looks like.
* `recv_cases`: on a connection with room for what is asked, a read event closes or appends the
  bytes it took; `recv_open` and `recv_defined` are its two readings.
-/

namespace Spigeon

open CInt

/-! ## Results of the system calls -/

theorem socketRead_got {bs : List UInt8} (h : bs.length ≤ maxRwCount) :
    socketRead (.got bs) = if bs = [] then SOCKET_PEER_CLOSED else (bs.length : ℤ) := by
  have hm : maxRwCount < 2 ^ 31 := by decide
  simp only [socketRead]
  rw [toInt_nat (by omega)]
  cases bs with
  | nil => rfl
  | cons b bs => rw [if_neg (by simp only [List.length_cons]; omega), if_neg (by simp)]

/-- A result that is no error and no end of stream counts the bytes delivered. -/
theorem socketRead_count {r : SysRead} (h : r.bytes.length ≤ maxRwCount) (herr : socketRead r ≠ SOCKET_ERR)
    (hclosed : socketRead r ≠ SOCKET_PEER_CLOSED) : socketRead r = r.bytes.length := by
  cases r with
  | got bs =>
    simp only [SysRead.bytes] at h ⊢
    rw [socketRead_got h] at hclosed ⊢
    rw [if_neg (fun hbs => hclosed (if_pos hbs))]
  | again => rfl
  | error => exact absurd rfl herr

theorem sysReadStream_length (src : StreamSrc) (len : ℕ) :
    (sysReadStream src len).bytes.length ≤ min len maxRwCount := by
  unfold sysReadStream
  split
  · simp [SysRead.bytes]
  split
  · simp [SysRead.bytes]
  cases src with
  | bytes b bs => simp only [SysRead.bytes]; exact List.length_take_le _ _
  | again => simp [SysRead.bytes]
  | eof => simp [SysRead.bytes]
  | error => simp [SysRead.bytes]

/-- An empty result of a read of positive length is the end of the stream. -/
theorem sysReadStream_empty {src : StreamSrc} {len : ℕ} (h : sysReadStream src len = .got []) :
    len = 0 ∨ src = .eof := by
  unfold sysReadStream at h
  split at h
  · exact Or.inl ‹_›
  split at h
  · cases h
  cases src with
  | bytes b bs =>
    -- at least one byte is taken
    exfalso
    simp only [SysRead.got.injEq] at h
    have hl := congrArg List.length h
    have hm : 0 < maxRwCount := by decide
    simp only [List.length_take, List.length_cons, List.length_nil] at hl
    omega
  | again => cases h
  | eof => exact Or.inr rfl
  | error => cases h

theorem sysReadDgram_length (src : DgramSrc) (len : ℕ) : (sysReadDgram src len).bytes.length ≤ len := by
  cases src with
  | datagram bs => exact List.length_take_le _ _
  | again => exact Nat.zero_le _
  | error => exact Nat.zero_le _

/-- A read of a datagram socket returns the number of bytes stored, or stores nothing and returns no
positive number. -/
theorem dgramRead_cases (src : DgramSrc) {len : ℕ} (hlen : len ≤ maxRwCount) :
    socketRead (sysReadDgram src len) = (sysReadDgram src len).bytes.length ∨
      socketRead (sysReadDgram src len) ≤ 0 ∧ (sysReadDgram src len).bytes = [] := by
  have hle := sysReadDgram_length src len
  cases src with
  | datagram bs =>
    simp only [sysReadDgram, SysRead.bytes] at hle ⊢
    rw [socketRead_got (by omega)]
    split
    · rename_i hnil
      exact Or.inr ⟨by decide, hnil⟩
    · exact Or.inl rfl
  | again => exact Or.inl rfl
  | error => exact Or.inr ⟨show SOCKET_ERR ≤ 0 by decide, rfl⟩

theorem rlen_range (c : TCPConnection) : -2 ^ 31 ≤ c.rlen ∧ c.rlen < 2 ^ 31 := toInt_range _

/-- The length asked for is 0 exactly when the expected size is a multiple of `2 ^ 32`. -/
theorem size_rlen_eq_zero (c : TCPConnection) : toSize c.rlen = 0 ↔ c.bytesExpected % 2 ^ 32 = 0 := by
  rw [toSize_eq_zero (rlen_range c).1 (rlen_range c).2]
  exact toInt_eq_zero

/-! ## Closing -/

/-- With a length of 0 the read event takes nothing and closes the connection. -/
theorem recv_zero (e : ReadEnv) {c : TCPConnection} (h : c.bytesExpected % 2 ^ 32 = 0) :
    tcpRecv e c = some (.close .peerClosed) := by
  have h0 := (size_rlen_eq_zero c).2 h
  have hgot : c.sysRead e.src = .got [] := by
    unfold TCPConnection.sysRead sysReadStream; rw [if_pos h0]
  unfold tcpRecv
  dsimp only
  rw [hgot, show (SysRead.got []).bytes = [] from rfl, poke, Option.bind_some,
    show socketRead (.got []) = SOCKET_PEER_CLOSED from rfl, if_neg (by decide), if_pos rfl]

/-- **Why a read event closes before the handler is reached.** -/
theorem recv_close {e : ReadEnv} {c : TCPConnection} {cause : CloseCause}
    (h : tcpRecv e c = some (.close cause)) :
    (cause = .socketErr ∧ c.sysRead e.src = .error) ∨
      (cause = .peerClosed ∧ (c.bytesExpected % 2 ^ 32 = 0 ∨ e.src = .eof)) := by
  unfold tcpRecv at h
  dsimp only at h
  obtain ⟨b, -, h⟩ := Option.bind_eq_some_iff.1 h
  have hlen : (c.sysRead e.src).bytes.length ≤ maxRwCount :=
    le_trans (sysReadStream_length _ _) (min_le_right _ _)
  cases hgot : c.sysRead e.src with
  | got bs =>
    rw [hgot] at h hlen
    simp only [SysRead.bytes] at hlen
    rw [socketRead_got hlen] at h
    by_cases hbs : bs = []
    · right
      rw [if_pos hbs, if_neg (by decide), if_pos rfl] at h
      simp only [Option.some.injEq, Recv.close.injEq] at h
      subst hbs
      -- no byte came: none was asked for, or the peer has closed
      rcases sysReadStream_empty hgot with h0 | h0
      · exact ⟨h.symm, Or.inl ((size_rlen_eq_zero c).1 h0)⟩
      · exact ⟨h.symm, Or.inr h0⟩
    · rw [if_neg hbs, if_neg (by simp only [SOCKET_ERR]; omega),
        if_neg (by simp only [SOCKET_PEER_CLOSED]; omega)] at h
      simp at h
  | again =>
    rw [hgot] at h
    rw [show socketRead .again = 0 from rfl, if_neg (by decide), if_neg (by decide)] at h
    simp at h
  | error =>
    rw [hgot] at h
    rw [show socketRead .error = SOCKET_ERR from rfl, if_pos rfl] at h
    simp only [Option.some.injEq, Recv.close.injEq] at h
    exact Or.inl ⟨h.symm, rfl⟩

/-! ## Receiving -/

/-- A read event that does not close has counted what it took. -/
theorem recv_counted {e : ReadEnv} {c c₁ : TCPConnection} (h : tcpRecv e c = some (.ok c₁)) :
    ∃ b buf, socketRead (c.sysRead e.src) = (c.sysRead e.src).bytes.length ∧
      (if socketRead (c.sysRead e.src) > 0 then
          sdsIncrLen { sdsMakeRoomFor e.fill c.ioBuffer (toSize c.rlen) with buf := b }
            (socketRead (c.sysRead e.src))
        else some { sdsMakeRoomFor e.fill c.ioBuffer (toSize c.rlen) with buf := b }) = some buf ∧
      c₁ = { c with ioBuffer := buf, lastInteraction := e.now } := by
  unfold tcpRecv at h
  dsimp only at h
  obtain ⟨b, -, h⟩ := Option.bind_eq_some_iff.1 h
  split at h
  · cases h
  rename_i herr
  split at h
  · cases h
  rename_i hclosed
  obtain ⟨buf, hbuf, h⟩ := Option.map_eq_some_iff.1 h
  have hlen : (c.sysRead e.src).bytes.length ≤ maxRwCount :=
    le_trans (sysReadStream_length _ _) (min_le_right _ _)
  simp only [Recv.ok.injEq] at h
  exact ⟨b, buf, socketRead_count hlen herr hclosed, hbuf, h.symm⟩

/-- It changes the buffer and the time stamp. -/
theorem recv_shape {e : ReadEnv} {c c₁ : TCPConnection} (h : tcpRecv e c = some (.ok c₁)) :
    ∃ buf, c₁ = { c with ioBuffer := buf, lastInteraction := e.now } := by
  obtain ⟨-, buf, -, -, hc⟩ := recv_counted h
  exact ⟨buf, hc⟩

/-- The sizes fit the `int` fields of the string header. -/
def InRange (c : TCPConnection) : Prop :=
  sdslen c.ioBuffer + c.bytesExpected + sdsMaxPrealloc < 2 ^ 31

instance (c : TCPConnection) : Decidable (InRange c) := inferInstanceAs (Decidable (_ < _))

/-- The room that a read event asks for is there, or there is room for it in the `int` fields. -/
def Roomy (c : TCPConnection) : Prop :=
  0 ≤ c.rlen ∧ (c.rlen ≤ c.ioBuffer.free ∨ sdslen c.ioBuffer + c.rlen + sdsMaxPrealloc < 2 ^ 31)

instance (c : TCPConnection) : Decidable (Roomy c) := inferInstanceAs (Decidable (_ ∧ _))

theorem InRange.roomy {c : TCPConnection} (h : InRange c) : Roomy c := by
  unfold InRange at h
  have hrlen : c.rlen = c.bytesExpected := toInt_nat (by omega)
  unfold Roomy
  rw [hrlen]
  omega

/-- A read event on a connection with room closes it, or appends what it took. -/
theorem recv_cases (e : ReadEnv) {c : TCPConnection} (hs : SdsOK c.ioBuffer) (hr : Roomy c) :
    (∃ cause, tcpRecv e c = some (.close cause)) ∨
      ∃ buf, tcpRecv e c = some (.ok { c with ioBuffer := buf, lastInteraction := e.now }) ∧
        SdsOK buf ∧ buf.content = c.ioBuffer.content ++ (c.sysRead e.src).bytes := by
  obtain ⟨h0, hroom⟩ := hr
  have hrange := rlen_range c
  have hsize : (toSize c.rlen : ℤ) = c.rlen := by rw [toSize_of_range h0 (by omega)]; omega
  have havail := hs.sdsavail_eq
  obtain ⟨hs₁, hl₁, hf₁, hc₁⟩ := makeRoom_ok e.fill hs (n := toSize c.rlen) (by omega)
  have hlen : (c.sysRead e.src).bytes.length ≤ min (toSize c.rlen) maxRwCount := sysReadStream_length _ _
  unfold tcpRecv
  set room := sdsMakeRoomFor e.fill c.ioBuffer (toSize c.rlen)
  set got := c.sysRead e.src
  have hsl : sdslen room = sdslen c.ioBuffer := by unfold sdslen; rw [hl₁]
  -- storing and counting the bytes is an append on the enlarged string
  obtain ⟨b, s', hb, hincr, hs', hc'⟩ := append_ok hs₁ got.bytes (by omega)
  rw [hsl] at hb
  rw [hc₁] at hc'
  dsimp only
  rw [hb, Option.bind_some]
  by_cases herr : socketRead got = SOCKET_ERR
  · exact Or.inl ⟨.socketErr, by rw [if_pos herr]⟩
  by_cases hclosed : socketRead got = SOCKET_PEER_CLOSED
  · exact Or.inl ⟨.peerClosed, by rw [if_neg herr, if_pos hclosed]⟩
  right
  have hcount := socketRead_count (le_trans hlen (min_le_right _ _)) herr hclosed
  rw [if_neg herr, if_neg hclosed, hcount]
  by_cases hnone : got.bytes = []
  · -- nothing is stored and the length stays
    rw [hnone, poke, Option.some.injEq] at hb
    rw [hnone, ← hb, if_neg (by simp)]
    exact ⟨room, rfl, hs₁, by rw [hc₁, List.append_nil]⟩
  · have hpos := List.length_pos_iff.2 hnone
    rw [if_pos (by omega), hincr]
    exact ⟨s', rfl, hs', hc'⟩

/-- **A read event that does not close appends what it took.** -/
theorem recv_open {e : ReadEnv} {c c₁ : TCPConnection} (hs : SdsOK c.ioBuffer) (hr : InRange c)
    (h : tcpRecv e c = some (.ok c₁)) :
    ∃ buf, c₁ = { c with ioBuffer := buf, lastInteraction := e.now } ∧ SdsOK buf ∧
      buf.content = c.ioBuffer.content ++ (c.sysRead e.src).bytes := by
  rcases recv_cases e hs hr.roomy with ⟨cause, hclose⟩ | ⟨buf, hopen, hbuf, hcont⟩
  · rw [hclose] at h
    simp at h
  · rw [hopen, Option.some.injEq, Recv.ok.injEq] at h
    exact ⟨buf, h.symm, hbuf, hcont⟩

/-- A read event on a connection in range neither leaves the block nor fails an
assertion. -/
theorem recv_defined (e : ReadEnv) {c : TCPConnection} (hs : SdsOK c.ioBuffer) (hr : InRange c) :
    (tcpRecv e c).isSome := by
  rcases recv_cases e hs hr.roomy with ⟨cause, hclose⟩ | ⟨buf, hopen, -⟩
  · rw [hclose]; rfl
  · rw [hopen]; rfl

end Spigeon
