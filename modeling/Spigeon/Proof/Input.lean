import Spigeon.Lib.Framer
import Spigeon.Proof.Recv

/-!
# Runs of read events: conservation and closing

The buffer, the two counters and the state of a connection form a decoder of framed
streams (`TCPConnection.framer`). In range, a read event is one `feed` of it
(`step_cases`): the three calls are the three moves, and the unsigned test for a
complete frame is the test on naturals.

* `input_conserved`: the counters stay inside the buffer, and the bytes dropped
  followed by the buffer are all bytes read.
* `read_closes_for_cause`: every read event of a run closes the connection for one of
  the intended reasons exactly when none of them asks for a length that is 0 as an
  `int`.
-/

namespace Spigeon

open CInt Lts

variable {σ : Type}

/-! ## Connections as decoders -/

def TCPConnection.framer (c : TCPConnection) : Framer UInt8 ℤ :=
  ⟨c.receiveState, c.bytesProcessed, c.bytesExpected, c.ioBuffer.content⟩

/-- The decoder's move a framing call stands for. -/
def Call.move : Call → Option (Framer.Move ℤ)
  | .reset st n => some (.rewind st n)
  | .expectNext st n => some (.advance st n)
  | .shrinkProcessed st n => some (.drop st n)
  | .addReply _ => none

/-- The framing calls a handler makes on `c`. -/
def Handler.moves (H : Handler σ) (m : σ) (c : TCPConnection) : List (Framer.Move ℤ) :=
  (H m c).2.1.filterMap Call.move

/-- Every call of the handler makes exactly one framing call. -/
def Handler.OneFraming (H : Handler σ) : Prop := ∀ m c, ∃ mv, H.moves m c = [mv]

/-- A connection between events: the buffer is well formed and the processed bytes are
in it. -/
structure ConnOK (c : TCPConnection) : Prop where
  sds : SdsOK c.ioBuffer
  processed : c.bytesProcessed ≤ sdslen c.ioBuffer

theorem start_ok (sock : Socket) (now : ℕ) (ssl : Bool) : ConnOK (TCPConnection.start sock now ssl) :=
  ⟨sdsempty_ok, Nat.zero_le _⟩

theorem ConnOK.length_buf {c : TCPConnection} (h : ConnOK c) : c.framer.buf.length = sdslen c.ioBuffer :=
  h.sds.length_content

theorem ConnOK.sdslen_lt {c : TCPConnection} (h : ConnOK c) : sdslen c.ioBuffer < 2 ^ 31 := by
  have := h.sds.sdslen_eq; have := h.sds.fits; have := h.sds.free; omega

/-- **The unsigned test for a complete frame does not wrap.** -/
theorem ConnOK.ready_iff {c : TCPConnection} (h : ConnOK c) : c.ready = true ↔ c.framer.Full := by
  have hl := h.length_buf
  have hlt := h.sdslen_lt
  have hp := h.processed
  unfold TCPConnection.ready Framer.Full
  rw [decide_eq_true_iff, toSize_sub hp (by omega), hl]
  simp only [TCPConnection.framer]
  omega

/-- A call in a state with a complete frame is the decoder's move. -/
theorem call_move {c : TCPConnection} (h : ConnOK c) (hf : c.framer.Full) {k : Call} {mv : Framer.Move ℤ}
    (hk : k.move = some mv) : ConnOK (k.run c) ∧ (k.run c).framer = c.framer.move mv := by
  have hlt := h.sdslen_lt
  have hfull : c.bytesProcessed + c.bytesExpected ≤ sdslen c.ioBuffer := by
    rw [← h.length_buf]; exact hf
  have hsum : (c.bytesProcessed + c.bytesExpected) % 2 ^ 64 = c.bytesProcessed + c.bytesExpected :=
    Nat.mod_eq_of_lt (by omega)
  cases k with
  | reset st n =>
    simp only [Call.move, Option.some.injEq] at hk
    subst hk
    exact ⟨⟨h.sds, Nat.zero_le _⟩, rfl⟩
  | expectNext st n =>
    simp only [Call.move, Option.some.injEq] at hk
    subst hk
    simp only [Call.run, TCPConnection.expectNext]
    rw [hsum]
    exact ⟨⟨h.sds, hfull⟩, rfl⟩
  | shrinkProcessed st n =>
    simp only [Call.move, Option.some.injEq] at hk
    subst hk
    simp only [Call.run, TCPConnection.shrinkProcessed]
    rw [hsum, toInt_nat (by omega)]
    obtain ⟨h1, h2⟩ := range_ok h.sds hfull
    refine ⟨⟨h1, Nat.zero_le _⟩, ?_⟩
    simp only [TCPConnection.framer, Framer.move, h2]
  | addReply r => cases hk

/-- `add_reply` does not concern the decoder. -/
theorem runCalls_none (calls : List Call) : ∀ c : TCPConnection, ConnOK c →
    calls.filterMap Call.move = [] → ConnOK (runCalls c calls) ∧ (runCalls c calls).framer = c.framer := by
  induction calls with
  | nil => intro c h _; exact ⟨h, rfl⟩
  | cons k ks ih =>
    intro c h hk
    cases k with
    | addReply r => exact ih (Call.run c (.addReply r)) ⟨h.sds, h.processed⟩ hk
    | reset st n => simp [Call.move] at hk
    | expectNext st n => simp [Call.move] at hk
    | shrinkProcessed st n => simp [Call.move] at hk

theorem runCalls_one (calls : List Call) : ∀ c : TCPConnection, ConnOK c → c.framer.Full →
    ∀ mv, calls.filterMap Call.move = [mv] →
      ConnOK (runCalls c calls) ∧ (runCalls c calls).framer = c.framer.move mv := by
  induction calls with
  | nil => intro c _ _ mv hk; simp at hk
  | cons k ks ih =>
    intro c h hf mv hk
    cases hm : k.move with
    | none =>
      rw [List.filterMap_cons_none hm] at hk
      cases k with
      | addReply r => exact ih (Call.run c (.addReply r)) ⟨h.sds, h.processed⟩ hf mv hk
      | reset st n => cases hm
      | expectNext st n => cases hm
      | shrinkProcessed st n => cases hm
    | some mv' =>
      rw [List.filterMap_cons_some hm] at hk
      simp only [List.cons.injEq] at hk
      obtain ⟨rfl, hks⟩ := hk
      obtain ⟨h1, h2⟩ := call_move h hf hm
      obtain ⟨h3, h4⟩ := runCalls_none ks (k.run c) h1 hks
      exact ⟨h3, h4.trans h2⟩

/-! ## One read event -/

/-- A read event that gets to the test for a complete frame. -/
theorem read_of_recv {H : Handler σ} {s : Input σ} {e : ReadEnv} {c₁ : TCPConnection}
    (h : tcpRecv e s.conn = some (.ok c₁)) :
    s.read H e = some (if c₁.ready then
      if (H s.mem c₁).2.2 ≠ WORKER_OK then .closed .handler
      else .opened (runCalls c₁ (H s.mem c₁).2.1) (some c₁)
      else .opened c₁ none) := by
  unfold Input.read tcpReadIo; rw [h, Option.map_some]

theorem read_of_close {H : Handler σ} {s : Input σ} {e : ReadEnv} {cause : CloseCause}
    (h : tcpRecv e s.conn = some (.close cause)) : s.read H e = some (.closed cause) := by
  unfold Input.read tcpReadIo; rw [h, Option.map_some]

/-- **The ends of a read event**: `tcpRecv` closes, the frame is not complete, the handler closes, or it
has run. -/
theorem read_ends {H : Handler σ} {s : Input σ} {e : ReadEnv} {r : ReadIo} (h : s.read H e = some r) :
    (∃ cause, tcpRecv e s.conn = some (.close cause) ∧ r = .closed cause) ∨
      ∃ c₁, tcpRecv e s.conn = some (.ok c₁) ∧
        ((c₁.ready = false ∧ r = .opened c₁ none) ∨
          (c₁.ready = true ∧ (H s.mem c₁).2.2 ≠ WORKER_OK ∧ r = .closed .handler) ∨
          (c₁.ready = true ∧ (H s.mem c₁).2.2 = WORKER_OK ∧
            r = .opened (runCalls c₁ (H s.mem c₁).2.1) (some c₁))) := by
  cases hrecv : tcpRecv e s.conn with
  | none =>
    have hread : s.read H e = none := by unfold Input.read tcpReadIo; rw [hrecv]; rfl
    rw [hread] at h; cases h
  | some end₁ =>
    cases end₁ with
    | close cause =>
      rw [read_of_close hrecv, Option.some.injEq] at h
      exact Or.inl ⟨cause, rfl, h.symm⟩
    | ok c₁ =>
      refine Or.inr ⟨c₁, rfl, ?_⟩
      rw [read_of_recv hrecv, Option.some.injEq] at h
      by_cases hrd : c₁.ready = true
      · rw [if_pos hrd] at h
        by_cases hret : (H s.mem c₁).2.2 = WORKER_OK
        · rw [if_neg (not_not.2 hret)] at h
          exact Or.inr (Or.inr ⟨hrd, hret, h.symm⟩)
        · rw [if_pos hret] at h
          exact Or.inr (Or.inl ⟨hrd, hret, h.symm⟩)
      · rw [if_neg hrd] at h
        exact Or.inl ⟨by simpa using hrd, h.symm⟩

/-- A read event keeps the connection open only through the end of `tcpRecv`. -/
theorem step_recv {H : Handler σ} {s s' : Input σ} {e : ReadEnv} (h : s.step H e = some s') :
    ∃ c₁, tcpRecv e s.conn = some (.ok c₁) ∧
      ((c₁.ready = false ∧ s' = { s with conn := c₁, input := s.input ++ s.taken e }) ∨
        (c₁.ready = true ∧ (H s.mem c₁).2.2 = WORKER_OK ∧
          s' =
            { conn := runCalls c₁ (H s.mem c₁).2.1
              mem := (H s.mem c₁).1
              input := s.input ++ s.taken e
              dropped := s.dropped ++ Input.droppedBy c₁ (runCalls c₁ (H s.mem c₁).2.1)
              frames := s.frames ++ [Input.frameOf c₁] })) := by
  unfold Input.step at h
  cases hread : s.read H e with
  | none => rw [hread] at h; cases h
  | some r =>
    rw [hread] at h
    rcases read_ends hread with ⟨cause, -, rfl⟩ | ⟨c₁, hrecv, ⟨hrd, rfl⟩ | ⟨-, -, rfl⟩ | ⟨hrd, hret, rfl⟩⟩
    · cases h
    · exact ⟨c₁, hrecv, Or.inl ⟨hrd, (Option.some.inj h).symm⟩⟩
    · cases h
    · exact ⟨c₁, hrecv, Or.inr ⟨hrd, hret, (Option.some.inj h).symm⟩⟩

/-- On a connection in range `tcpRecv` pushes the bytes taken. -/
theorem recv_push {c c₁ : TCPConnection} {e : ReadEnv} (hc : ConnOK c) (hr : InRange c)
    (h : tcpRecv e c = some (.ok c₁)) :
    ConnOK c₁ ∧ c₁.framer = c.framer.push (c.sysRead e.src).bytes := by
  obtain ⟨buf, rfl, hbuf, hcont⟩ := recv_open hc.sds hr h
  refine ⟨⟨hbuf, ?_⟩, ?_⟩
  · have hl := hbuf.length_content
    rw [hcont, List.length_append, hc.sds.length_content] at hl
    have hp := hc.processed
    simp only; omega
  · simp only [TCPConnection.framer, Framer.push, hcont]

/-- **What a read event does to an open connection**: it pushes the bytes it took, and
when that completes a frame the handler's call moves the decoder. -/
theorem step_cases {H : Handler σ} (hone : H.OneFraming) {s s' : Input σ} {e : ReadEnv}
    (hc : ConnOK s.conn) (hr : InRange s.conn) (h : s.step H e = some s') :
    ∃ c₁, tcpRecv e s.conn = some (.ok c₁) ∧ ConnOK c₁ ∧ c₁.framer = s.conn.framer.push (s.taken e) ∧
      ConnOK s'.conn ∧ s'.input = s.input ++ s.taken e ∧
      ((¬ c₁.framer.Full ∧ s'.conn = c₁ ∧ s'.mem = s.mem ∧ s'.dropped = s.dropped ∧
          s'.frames = s.frames) ∨
        (c₁.framer.Full ∧ ∃ mv, H.moves s.mem c₁ = [mv] ∧ s'.conn.framer = c₁.framer.move mv ∧
          s'.mem = (H s.mem c₁).1 ∧ s'.dropped = s.dropped ++ Input.droppedBy c₁ s'.conn ∧
          s'.frames = s.frames ++ [(c₁.framer.state, c₁.framer.frame)])) := by
  obtain ⟨c₁, hrecv, hcase⟩ := step_recv h
  obtain ⟨hok₁, hfr⟩ := recv_push hc hr hrecv
  refine ⟨c₁, hrecv, hok₁, hfr, ?_⟩
  rcases hcase with ⟨hrd, rfl⟩ | ⟨hrd, -, rfl⟩
  · refine ⟨hok₁, rfl, Or.inl ⟨fun hf => ?_, rfl, rfl, rfl, rfl⟩⟩
    rw [hok₁.ready_iff.2 hf] at hrd
    cases hrd
  · have hfull := hok₁.ready_iff.1 hrd
    obtain ⟨mv, hmv⟩ := hone s.mem c₁
    obtain ⟨h1, h2⟩ := runCalls_one _ c₁ hok₁ hfull mv hmv
    exact ⟨h1, rfl, Or.inr ⟨hfull, mv, hmv, h2, rfl, rfl, rfl⟩⟩

/-! ## Conservation -/

/-- The input side between events. -/
structure InputOK (s : Input σ) : Prop extends ConnOK s.conn where
  conserved : s.dropped ++ s.conn.ioBuffer.content = s.input

theorem init_input_ok (sock : Socket) (now : ℕ) (ssl : Bool) (m : σ) :
    InputOK (Input.init (TCPConnection.start sock now ssl) m) :=
  ⟨start_ok sock now ssl, rfl⟩

/-- What leaves the buffer at a move is its part before the new start. -/
theorem droppedBy_move {c c' : TCPConnection} (h : ConnOK c) (h' : ConnOK c') (hf : c.framer.Full)
    {mv : Framer.Move ℤ} (hm : c'.framer = c.framer.move mv) :
    Input.droppedBy c c' ++ c'.ioBuffer.content = c.ioBuffer.content := by
  have hl := h.length_buf
  have hl' := h'.length_buf
  have hbuf : c'.ioBuffer.content = (c.framer.move mv).buf := by rw [← hm]; rfl
  unfold Input.droppedBy
  rw [← hl, ← hl', hm]
  unfold Framer.Full at hf
  cases mv with
  | rewind st n => rw [hbuf]; simp [Framer.move, TCPConnection.framer]
  | advance st n => rw [hbuf]; simp [Framer.move, TCPConnection.framer]
  | drop st n =>
    rw [hbuf]
    simp only [Framer.move, List.length_drop]
    rw [show c.framer.buf.length - (c.framer.buf.length - (c.framer.done + c.framer.want)) =
      c.framer.done + c.framer.want by omega]
    exact List.take_append_drop _ _

theorem step_input_ok {H : Handler σ} (hone : H.OneFraming) {s s' : Input σ} {e : ReadEnv} (hs : InputOK s)
    (hr : InRange s.conn) (h : s.step H e = some s') : InputOK s' := by
  obtain ⟨c₁, -, hok₁, hfr, hok', hin, hcase⟩ := step_cases hone hs.toConnOK hr h
  refine ⟨hok', ?_⟩
  have hpush : c₁.ioBuffer.content = s.conn.ioBuffer.content ++ s.taken e :=
    congrArg Framer.buf hfr
  have hcons := hs.conserved
  rcases hcase with ⟨-, hconn, -, hdrop, -⟩ | ⟨hfull, mv, -, hmove, -, hdrop, -⟩
  · rw [hdrop, hconn, hpush, hin, ← hcons, List.append_assoc]
  · rw [hdrop, hin, List.append_assoc, droppedBy_move hok₁ hok' hfull hmove, hpush, ← hcons,
      List.append_assoc]

/-- Buffer length plus expected size below `2 ^ 30`. -/
def SizesBounded (s : Input σ) : Prop := sdslen s.conn.ioBuffer + s.conn.bytesExpected < 2 ^ 30

instance (s : Input σ) : Decidable (SizesBounded s) := inferInstanceAs (Decidable (_ < _))

theorem SizesBounded.inRange {s : Input σ} (h : SizesBounded s) : InRange s.conn := by
  have hp : sdsMaxPrealloc = 1024 * 1024 := rfl
  unfold SizesBounded at h
  unfold InRange; omega

/-- **TCP input is conserved and frame windows are inside the buffer.** Along every run
whose sizes stay bounded: the processed bytes are in the buffer, and the bytes dropped
followed by the buffer are the bytes read. A further read event neither leaves the
block nor fails an assertion, its unsigned subtraction does not wrap, and when it gets
to the handler the whole frame is in the buffer. -/
theorem input_conserved {H : Handler σ} (hone : H.OneFraming) (sock : Socket) (now : ℕ) (ssl : Bool)
    (m : σ) {es : List ReadEnv} {s : Input σ}
    (hb : Along (Input.step H) (fun s _ => SizesBounded s) (Input.init (TCPConnection.start sock now ssl) m) es)
    (hrun : run (Input.step H) (Input.init (TCPConnection.start sock now ssl) m) es = some s) :
    s.conn.bytesProcessed ≤ sdslen s.conn.ioBuffer ∧
      s.dropped ++ s.conn.ioBuffer.content = s.input ∧
      (SizesBounded s → ∀ e, (tcpRecv e s.conn).isSome ∧
        ∀ c₁, tcpRecv e s.conn = some (.ok c₁) →
          toSize ((sdslen c₁.ioBuffer : ℤ) - c₁.bytesProcessed) = sdslen c₁.ioBuffer - c₁.bytesProcessed ∧
          (c₁.ready = true → c₁.bytesProcessed + c₁.bytesExpected ≤ sdslen c₁.ioBuffer)) := by
  have hok : InputOK s := run_inv_along (fun t e t' ht hbt hst => step_input_ok hone ht hbt.inRange hst)
    (init_input_ok sock now ssl m) hb hrun
  refine ⟨hok.processed, hok.conserved, fun hbs e => ⟨recv_defined e hok.sds hbs.inRange, ?_⟩⟩
  intro c₁ hrecv
  obtain ⟨hok₁, -⟩ := recv_push hok.toConnOK hbs.inRange hrecv
  refine ⟨toSize_sub hok₁.processed ?_, fun hrd => ?_⟩
  · have := hok₁.sdslen_lt; omega
  · rw [← hok₁.length_buf]
    exact hok₁.ready_iff.1 hrd

/-- A handler of frames of one byte each. -/
def byteFrames : Handler Unit := fun _ _ => ((), [.shrinkProcessed 0 1], WORKER_OK)

/-- Two bytes arrive together, the second one is taken by the third read event. -/
def twoBytes : List ReadEnv :=
  [⟨fun _ => 0, .bytes 5 [6], 1⟩, ⟨fun _ => 0, .again, 2⟩, ⟨fun _ => 0, .bytes 6 [], 3⟩]

theorem input_conserved_byteFrames :
    ∃ s, run (Input.step byteFrames) (Input.init (TCPConnection.start ⟨0, .tcp, 7⟩ 0 false) ()) twoBytes =
      some s ∧
      s.frames = [(0, [5]), (0, [6])] ∧ s.dropped ++ s.conn.ioBuffer.content = s.input := by
  have hone : byteFrames.OneFraming := fun _ _ => ⟨.drop 0 1, rfl⟩
  have hmap : (run (Input.step byteFrames) (Input.init (TCPConnection.start ⟨0, .tcp, 7⟩ 0 false) ())
    twoBytes).map Input.frames = some [(0, [5]), (0, [6])] := by decide +kernel
  obtain ⟨s, hrun, hframes⟩ := Option.map_eq_some_iff.1 hmap
  exact ⟨s, hrun, hframes, (input_conserved hone _ _ _ _ (by decide +kernel) hrun).2.1⟩

/-! ## Closing -/

/-- A read event closes only at the end of the stream, on an error of the socket or on
the handler's word, and hands over a frame of length zero. -/
def ReadJustified (H : Handler σ) (s : Input σ) (e : ReadEnv) : Prop :=
  (∀ cause, s.read H e = some (.closed cause) →
    e.src = .eof ∨ s.conn.sysRead e.src = .error ∨
      ∃ c₁, tcpRecv e s.conn = some (.ok c₁) ∧ c₁.ready = true ∧ (H s.mem c₁).2.2 ≠ WORKER_OK) ∧
  (s.conn.bytesExpected = 0 → ∃ c₁, tcpRecv e s.conn = some (.ok c₁) ∧ c₁.ready = true)

/-- The expected size is not 0, and not 0 as an `int` either unless the peer has closed. -/
def AsksForBytes (s : Input σ) (e : ReadEnv) : Prop :=
  s.conn.bytesExpected ≠ 0 ∧ (s.conn.bytesExpected % 2 ^ 32 = 0 → e.src = .eof)

/-- **Where a closed connection comes from.** -/
theorem read_closed {H : Handler σ} {s : Input σ} {e : ReadEnv} {cause : CloseCause}
    (h : s.read H e = some (.closed cause)) :
    tcpRecv e s.conn = some (.close cause) ∨
      ∃ c₁, tcpRecv e s.conn = some (.ok c₁) ∧ c₁.ready = true ∧ (H s.mem c₁).2.2 ≠ WORKER_OK := by
  rcases read_ends h with ⟨cause', hrecv, hr⟩ | ⟨c₁, hrecv, ⟨-, hr⟩ | ⟨hrd, hret, -⟩ | ⟨-, -, hr⟩⟩
  · cases hr
    exact Or.inl hrecv
  · cases hr
  · exact Or.inr ⟨c₁, hrecv, hrd, hret⟩
  · cases hr

theorem readJustified_iff (H : Handler σ) (s : Input σ) (e : ReadEnv) :
    ReadJustified H s e ↔ AsksForBytes s e := by
  constructor
  · rintro ⟨hclose, hzero⟩
    refine ⟨fun h0 => ?_, fun h0 => ?_⟩
    · -- a length of zero closes before the handler is reached
      obtain ⟨c₁, h, -⟩ := hzero h0
      rw [recv_zero e (by omega)] at h
      cases h
    · have hrecv := recv_zero e h0
      rcases hclose _ (read_of_close hrecv) with h | h | ⟨c₁, h, -⟩
      · exact h
      · unfold TCPConnection.sysRead sysReadStream at h
        rw [if_pos ((size_rlen_eq_zero _).2 h0)] at h
        cases h
      · rw [hrecv] at h; cases h
  · rintro ⟨hne, hasks⟩
    refine ⟨fun cause h => ?_, fun h0 => absurd h0 hne⟩
    rcases read_closed h with h | h
    · rcases recv_close h with ⟨-, herr⟩ | ⟨-, h0 | heof⟩
      · exact Or.inr (Or.inl herr)
      · exact Or.inl (hasks h0)
      · exact Or.inl heof
    · exact Or.inr (Or.inr h)

/-- **A run of read events closes only for cause exactly when no event asks for a
length of zero.** A length of zero makes `::read` return 0, which `Socket::read`
reports as a closed peer. -/
theorem read_closes_for_cause (H : Handler σ) (sock : Socket) (now : ℕ) (ssl : Bool) (m : σ)
    (es : List ReadEnv) :
    Along (Input.step H) (ReadJustified H) (Input.init (TCPConnection.start sock now ssl) m) es ↔
      Along (Input.step H) AsksForBytes (Input.init (TCPConnection.start sock now ssl) m) es :=
  Along.congr (readJustified_iff H)

/-- A handler that reads a header of one byte and then a body of length zero. -/
def emptyBody : Handler Unit := fun _ c =>
  ((), [if c.receiveState = 0 then .expectNext 1 0 else .shrinkProcessed 0 1], WORKER_OK)

/-- The second byte has arrived, no body is outstanding, and the read event closes. -/
theorem emptyBody_closes :
    ¬ Along (Input.step emptyBody) (ReadJustified emptyBody)
      (Input.init (TCPConnection.start ⟨0, .tcp, 7⟩ 0 false) ())
      [⟨fun _ => 0, .bytes 5 [], 1⟩, ⟨fun _ => 0, .bytes 6 [], 2⟩] := by
  intro h
  have h2 := (h.2 _ rfl).1
  exact ((readJustified_iff _ _ _).1 h2).1 rfl

end Spigeon
