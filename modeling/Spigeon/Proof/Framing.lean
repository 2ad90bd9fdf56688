import Spigeon.Proof.Input

/-!
# Framing and the kernel's chunks

A read event calls the handler at most once, so a chunk that completes a frame may leave
the next one complete in the buffer.

* `step_waits_iff`: a read event leaves no complete frame behind exactly when the bytes
  behind the frame it completes are fewer than the handler's next size.
* `step_feed`: for a handler that looks no further than the end of its frame a read
  event is one `feed` of the decoder.
* `framing_of_short_surplus`: both facts along runs. The frames and the decoder after a
  stream are those of the run that takes one byte at a time.
* `framing_depends_on_chunks`: a chunking with a complete frame left waiting.
-/

namespace Spigeon

open Lts

variable {σ : Type}

/-! ## Complete frames left behind -/

/-- When the event completes a frame, the bytes behind it are fewer than the size the
handler asks for next; after `reset` that is the whole buffer. -/
def SurplusShort (H : Handler σ) (s : Input σ) (e : ReadEnv) : Prop :=
  (s.conn.framer.push (s.taken e)).Full → ∀ c₁, tcpRecv e s.conn = some (.ok c₁) →
    ∀ mv ∈ H.moves s.mem c₁, (s.conn.framer.push (s.taken e)).Short mv

instance (H : Handler σ) (s : Input σ) (e : ReadEnv) : Decidable (SurplusShort H s e) :=
  match h : tcpRecv e s.conn with
  | none => isTrue fun _ c₁ hc => by rw [h] at hc; cases hc
  | some (.close _) => isTrue fun _ c₁ hc => by rw [h] at hc; cases hc
  | some (.ok c) =>
    decidable_of_iff ((s.conn.framer.push (s.taken e)).Full →
        ∀ mv ∈ H.moves s.mem c, (s.conn.framer.push (s.taken e)).Short mv)
      ⟨fun hall hf c₁ hc => by rw [h] at hc; cases hc; exact hall hf, fun hall hf => hall hf c h⟩

theorem ConnOK.ready_eq_false {c : TCPConnection} (h : ConnOK c) : c.ready = false ↔ ¬ c.framer.Full := by
  rw [← h.ready_iff, Bool.not_eq_true]

theorem step_waits_iff {H : Handler σ} (hone : H.OneFraming) {s s' : Input σ} {e : ReadEnv}
    (hs : ConnOK s.conn) (hr : InRange s.conn) (h : s.step H e = some s') :
    s'.conn.ready = false ↔ SurplusShort H s e := by
  obtain ⟨c₁, hrecv, hok₁, hfr, hok', -, hcase⟩ := step_cases hone hs hr h
  rw [hok'.ready_eq_false]
  unfold SurplusShort
  rw [← hfr]
  rcases hcase with ⟨hwait, hconn, -⟩ | ⟨hfull, mv, hmv, hmove, -⟩
  · -- the event only appended
    rw [hconn]
    exact ⟨fun _ hf => absurd hf hwait, fun _ => hwait⟩
  · rw [hmove, Framer.move_waits hfull]
    constructor
    · intro hshort _ c hc mv' hmv'
      rw [hrecv] at hc
      cases hc
      rw [hmv, List.mem_singleton] at hmv'
      rw [hmv']; exact hshort
    · intro hall
      exact hall hfull c₁ hrecv mv (by rw [hmv]; exact List.mem_singleton.2 rfl)

/-- A read event that ends the connection without the handler completes no frame. -/
theorem surplusShort_of_stuck {H : Handler σ} (hret : ∀ m c, (H m c).2.2 = WORKER_OK) {s : Input σ}
    {e : ReadEnv} (h : s.step H e = none) : SurplusShort H s e := by
  intro _ c₁ hrecv
  exfalso
  unfold Input.step at h
  rw [read_of_recv hrecv] at h
  by_cases hrd : c₁.ready = true
  · rw [if_pos hrd, if_neg (not_not.2 (hret s.mem c₁))] at h; cases h
  · rw [if_neg hrd] at h; cases h

/-- **No complete frame is left waiting along a run exactly when every surplus is
short.** -/
theorem waits_iff_short {H : Handler σ} (hone : H.OneFraming) (hret : ∀ m c, (H m c).2.2 = WORKER_OK)
    (es : List ReadEnv) : ∀ s : Input σ, InputOK s → s.conn.ready = false →
      Along (Input.step H) (fun s _ => InRange s.conn) s es →
      (Always (Input.step H) (fun s => s.conn.ready = false) s es ↔
        Along (Input.step H) (SurplusShort H) s es) := by
  induction es with
  | nil => intro s _ hw _; exact ⟨fun _ => trivial, fun _ => hw⟩
  | cons e es ih =>
    intro s hs hw hr
    cases hst : s.step H e with
    | none =>
      refine ⟨fun _ => ⟨surplusShort_of_stuck hret hst, ?_⟩, fun _ => ⟨hw, ?_⟩⟩
      · intro t ht; rw [hst] at ht; cases ht
      · intro t ht; rw [hst] at ht; cases ht
    | some s' =>
      have hs' := step_input_ok hone hs hr.1 hst
      have hone' := step_waits_iff hone hs.toConnOK hr.1 hst
      constructor
      · rintro ⟨-, hall⟩
        have hw' := (hall s' hst).head
        refine ⟨hone'.1 hw', fun t ht => ?_⟩
        rw [hst] at ht
        cases ht
        exact (ih s' hs' hw' (hr.2 s' hst)).1 (hall s' hst)
      · rintro ⟨hshort, hall⟩
        refine ⟨hw, fun t ht => ?_⟩
        rw [hst] at ht
        cases ht
        exact (ih s' hs' (hone'.2 hshort) (hr.2 s' hst)).2 (hall s' hst)

/-! ## Two runs over one stream -/

/-- The handler's memory and framing call depend on the receive state, the counters and
the buffer up to the end of the frame. -/
def Handler.Local (H : Handler σ) : Prop :=
  ∀ m (c c' : TCPConnection), c.framer.cut = c'.framer.cut →
    (H m c).1 = (H m c').1 ∧ H.moves m c = H.moves m c'

open Classical in
/-- The handler as a handler of the decoder: it answers for some connection with the
same view. -/
noncomputable def Handler.answer (H : Handler σ) (m : σ) (f : Framer UInt8 ℤ) : σ × Framer.Move ℤ :=
  if h : ∃ c : TCPConnection, c.framer.cut = f.cut then
    ((H m h.choose).1, (H.moves m h.choose).headD (.rewind 0 0))
  else (m, .rewind 0 0)

theorem answer_local (H : Handler σ) : Framer.Local H.answer := by
  intro m f
  unfold Handler.answer
  rw [Framer.cut_cut]

theorem answer_framer {H : Handler σ} (hH : H.Local) {m : σ} {c : TCPConnection} {mv : Framer.Move ℤ}
    (hmv : H.moves m c = [mv]) : H.answer m c.framer = ((H m c).1, mv) := by
  have hex : ∃ c' : TCPConnection, c'.framer.cut = c.framer.cut := ⟨c, rfl⟩
  obtain ⟨hmem, hmoves⟩ := hH m hex.choose c hex.choose_spec
  unfold Handler.answer
  rw [dif_pos hex, hmem, hmoves, hmv]
  rfl

/-- What two runs are compared on. -/
def Input.view (s : Input σ) : Framer.Run UInt8 ℤ σ := ⟨s.mem, s.conn.framer, s.frames⟩

theorem step_feed {H : Handler σ} (hone : H.OneFraming) (hH : H.Local) {s s' : Input σ} {e : ReadEnv}
    (hs : ConnOK s.conn) (hr : InRange s.conn) (h : s.step H e = some s') :
    s'.view = Framer.feed H.answer s.view (s.taken e) := by
  obtain ⟨c₁, -, -, hfr, -, -, hcase⟩ := step_cases hone hs hr h
  have hpush : s.view.fr.push (s.taken e) = c₁.framer := hfr.symm
  rcases hcase with ⟨hwait, hconn, hmem, -, hframes⟩ | ⟨hfull, mv, hmv, hmove, hmem, -, hframes⟩
  · rw [Framer.feed_wait (by rw [hpush]; exact hwait), hpush]
    unfold Input.view
    rw [hconn, hmem, hframes]
  · have hans : H.answer s.view.mem c₁.framer = ((H s.mem c₁).1, mv) := answer_framer hH hmv
    rw [Framer.feed_full (by rw [hpush]; exact hfull), hpush, hans]
    unfold Input.view
    rw [hmove, hmem, hframes]

/-- The run of the decoder that takes one byte at a time. -/
noncomputable def byBytes (H : Handler σ) (r : Framer.Run UInt8 ℤ σ) (bs : List UInt8) : Framer.Run UInt8 ℤ σ :=
  bs.foldl (fun r x => Framer.feed H.answer r [x]) r

/-- **A run that leaves no frame waiting is the run over its bytes.** -/
theorem view_eq_byBytes {H : Handler σ} (hone : H.OneFraming) (hH : H.Local) {s₀ s : Input σ} {es : List ReadEnv}
    (h₀ : InputOK s₀) (hw : s₀.conn.ready = false) (hin : s₀.input = [])
    (hall : Along (Input.step H) (fun s e => InRange s.conn ∧ SurplusShort H s e) s₀ es)
    (hrun : run (Input.step H) s₀ es = some s) : s.view = byBytes H s₀.view s.input := by
  -- the invariant: nothing waits, and the bytes so far give the view
  have hinv : InputOK s ∧ s.conn.ready = false ∧ s.view = byBytes H s₀.view s.input := by
    refine run_inv_along (I := fun t => InputOK t ∧ t.conn.ready = false ∧ t.view = byBytes H s₀.view t.input)
      ?_ ⟨h₀, hw, ?_⟩ hall hrun
    · rintro t e t' ⟨hok, hwait, hview⟩ ⟨hr, hshort⟩ hst
      have hok' := step_input_ok hone hok hr hst
      have hwait' := (step_waits_iff hone hok.toConnOK hr hst).2 hshort
      have hfeed := step_feed hone hH hok.toConnOK hr hst
      refine ⟨hok', hwait', ?_⟩
      obtain ⟨-, -, -, -, -, hinput, -⟩ := step_cases hone hok.toConnOK hr hst
      rw [hfeed, Framer.feed_eq_bytes (answer_local H) (hok.toConnOK.ready_eq_false.1 hwait), hview, hinput]
      · unfold byBytes; rw [List.foldl_append]
      · rw [← hfeed]; exact hok'.toConnOK.ready_eq_false.1 hwait'
    · rw [hin]; rfl
  exact hinv.2.2

/-- **Framing does not depend on the chunks as long as every surplus is short.** Along
a run in range no complete frame is left waiting exactly when the bytes behind each
completed frame are fewer than the handler's next size; and two such runs of a handler
that looks no further than its frame hand over the same frames and end in the same
state when they have read the same bytes. -/
theorem framing_of_short_surplus {H : Handler σ} (hone : H.OneFraming)
    (hret : ∀ m c, (H m c).2.2 = WORKER_OK) (sock : Socket) (now : ℕ) (ssl : Bool) (m : σ) :
    (∀ es, Along (Input.step H) (fun s _ => InRange s.conn) (Input.init (TCPConnection.start sock now ssl) m) es →
      (Always (Input.step H) (fun s => s.conn.ready = false) (Input.init (TCPConnection.start sock now ssl) m)
        es ↔
        Along (Input.step H) (SurplusShort H) (Input.init (TCPConnection.start sock now ssl) m) es)) ∧
    (H.Local → ∀ es es' s s',
      Along (Input.step H) (fun s e => InRange s.conn ∧ SurplusShort H s e)
        (Input.init (TCPConnection.start sock now ssl) m) es →
      Along (Input.step H) (fun s e => InRange s.conn ∧ SurplusShort H s e)
        (Input.init (TCPConnection.start sock now ssl) m) es' →
      run (Input.step H) (Input.init (TCPConnection.start sock now ssl) m) es = some s →
      run (Input.step H) (Input.init (TCPConnection.start sock now ssl) m) es' = some s' →
      s.input = s'.input → s.frames = s'.frames ∧ s.conn.framer = s'.conn.framer) := by
  have hok := init_input_ok sock now ssl m
  have hw : (Input.init (TCPConnection.start sock now ssl) m).conn.ready = false := rfl
  refine ⟨fun es hr => waits_iff_short hone hret es _ hok hw hr, ?_⟩
  intro hH es es' s s' hall hall' hrun hrun' hin
  have hview := view_eq_byBytes hone hH hok hw rfl hall hrun
  have hview' := view_eq_byBytes hone hH hok hw rfl hall' hrun'
  rw [hin, ← hview'] at hview
  exact ⟨congrArg Framer.Run.frames hview, congrArg Framer.Run.fr hview⟩

/-- A header of one byte in state 0, a body of four in state 1. -/
def headerBody : Handler Unit := fun _ c =>
  ((), [if c.receiveState = 0 then .expectNext 1 4 else .shrinkProcessed 0 1], WORKER_OK)

theorem headerBody_moves (m : Unit) (c : TCPConnection) :
    headerBody.moves m c = [if c.framer.state = 0 then .advance 1 4 else .drop 0 1] := by
  unfold Handler.moves headerBody
  by_cases h : c.receiveState = 0
  · rw [if_pos h, if_pos (show c.framer.state = 0 from h)]; rfl
  · rw [if_neg h, if_neg (show ¬ c.framer.state = 0 from h)]; rfl

/-- A stream as a list of reads. -/
def reads (chunks : List StreamSrc) : List ReadEnv := chunks.map fun src => ⟨fun _ => 0, src, 0⟩

theorem framing_of_short_surplus_headerBody :
    ∃ s s',
      run (Input.step headerBody) (Input.init (TCPConnection.start ⟨0, .tcp, 7⟩ 0 false) ())
        (reads [.bytes 0 [], .bytes 1 [2], .bytes 3 [4]]) = some s ∧
      run (Input.step headerBody) (Input.init (TCPConnection.start ⟨0, .tcp, 7⟩ 0 false) ())
        (reads [.bytes 0 [], .again, .bytes 1 [2, 3, 4]]) = some s' ∧
      s.conn.ready = false ∧ s.frames = s'.frames := by
  have hone : headerBody.OneFraming := fun m c => ⟨_, headerBody_moves m c⟩
  have hlocal : headerBody.Local := by
    intro m c c' h
    have hst : c.framer.cut.state = c'.framer.cut.state := congrArg Framer.state h
    rw [headerBody_moves, headerBody_moves, show c.framer.state = c'.framer.state from hst]
    exact ⟨rfl, rfl⟩
  obtain ⟨hiff, htwo⟩ := framing_of_short_surplus hone (fun _ _ => rfl) ⟨0, .tcp, 7⟩ 0 false ()
  have h1 : (run (Input.step headerBody) (Input.init (TCPConnection.start ⟨0, .tcp, 7⟩ 0 false) ())
      (reads [.bytes 0 [], .bytes 1 [2], .bytes 3 [4]])).map Input.input = some [0, 1, 2, 3, 4] := by
    decide +kernel
  have h2 : (run (Input.step headerBody) (Input.init (TCPConnection.start ⟨0, .tcp, 7⟩ 0 false) ())
      (reads [.bytes 0 [], .again, .bytes 1 [2, 3, 4]])).map Input.input = some [0, 1, 2, 3, 4] := by
    decide +kernel
  obtain ⟨s, hs, hin⟩ := Option.map_eq_some_iff.1 h1
  obtain ⟨s', hs', hin'⟩ := Option.map_eq_some_iff.1 h2
  refine ⟨s, s', hs, hs', ?_, (htwo hlocal _ _ s s' (by decide +kernel) (by decide +kernel) hs hs' ?_).1⟩
  · exact ((hiff _ (by decide +kernel)).2 (by decide +kernel)).last hs
  · rw [hin, hin']

/-- The third read completes a body and brings the next header along: the header waits
in the buffer, and the frames are not those of the other chunking. -/
theorem framing_depends_on_chunks :
    ∃ s s',
      run (Input.step headerBody) (Input.init (TCPConnection.start ⟨0, .tcp, 7⟩ 0 false) ())
        (reads [.bytes 0 [], .bytes 1 [2], .bytes 3 [4, 0, 1]]) = some s ∧
      run (Input.step headerBody) (Input.init (TCPConnection.start ⟨0, .tcp, 7⟩ 0 false) ())
        (reads [.bytes 0 [], .bytes 1 [2, 3, 4], .bytes 0 [], .bytes 1 []]) = some s' ∧
      s.input = s'.input ∧ s.conn.ready = true ∧ s.frames ≠ s'.frames := by
  have h1 : (run (Input.step headerBody) (Input.init (TCPConnection.start ⟨0, .tcp, 7⟩ 0 false) ())
      (reads [.bytes 0 [], .bytes 1 [2], .bytes 3 [4, 0, 1]])).map
        (fun s => (s.input, s.conn.ready, s.frames)) =
      some ([0, 1, 2, 3, 4, 0, 1], true, [(0, [0]), (1, [1, 2, 3, 4])]) := by decide +kernel
  have h2 : (run (Input.step headerBody) (Input.init (TCPConnection.start ⟨0, .tcp, 7⟩ 0 false) ())
      (reads [.bytes 0 [], .bytes 1 [2, 3, 4], .bytes 0 [], .bytes 1 []])).map
        (fun s => (s.input, s.conn.ready, s.frames)) =
      some ([0, 1, 2, 3, 4, 0, 1], false, [(0, [0]), (1, [1, 2, 3, 4]), (0, [0])]) := by decide +kernel
  obtain ⟨s, hs, hv⟩ := Option.map_eq_some_iff.1 h1
  obtain ⟨s', hs', hv'⟩ := Option.map_eq_some_iff.1 h2
  simp only [Prod.mk.injEq] at hv hv'
  refine ⟨s, s', hs, hs', by rw [hv.1, hv'.1], hv.2.1, ?_⟩
  rw [hv.2.2, hv'.2.2]
  decide

end Spigeon
