import Spigeon.Lib.Lists
import Spigeon.Proof.Removal

/-!
# The arithmetic of the idle timer

`process_timeout` subtracts two readings of the event loop's clock as unsigned 64-bit numbers. The
clock is the wall clock, which can be set back.

* `WorkerEvent.refreshes`: the events that store the clock reading in a connection.
* `Clocked`: a worker with the reading of the last such event for every connection.
  `step_stamps`: the field `_last_interaction` is that reading.
* `timer_exact_iff`: the decisions of a run are those of the mathematical difference exactly
  if no timer looks at a connection stamped in the future.
-/

namespace Spigeon

open CInt Lts

/-! ## Refreshing a connection -/

/-- A write event on the connection gets behind its loop, or fails. -/
def Conn.writeEnds (now : ℕ) (ks : List Sink) : Conn → Bool
  | .tcp c => (tcpWriteIo now ks c).stop = .drained ∨ (tcpWriteIo now ks c).stop = .failed
  | .udp c => (udpWriteIo now ks c).stop = .drained

/-- The task stores the clock reading in the connection `id`. Besides the events themselves,
`remove_conn` does so, in the connection that it frees. -/
def Task.refreshes (w : Worker) (id : ℕ) : Task → Bool
  | .readIo fd _ => w.lookup fd = some id
  | .writeIo fd ks => w.lookup fd = some id ∧ (w.objs[id]?).any (Conn.writeEnds w.now ks)
  | .returned i ret => i = id ∧ ret ≠ WORKER_OK
  | .close _ _ => false
  | .closeSlot fd => w.lookup fd = some id

def WorkerEvent.refreshes (w : Worker) (id : ℕ) : WorkerEvent → Bool
  | .next => w.todo.head?.any (Task.refreshes w id)
  | .create _ => id = w.objs.length
  | .timer i => i = id ∧ (w.objs[i]?).any fun c => w.expired c
  | .clock _ => false
  | .io _ _ _ _ _ => false
  | .reply _ _ => false
  | .stop => false

/-- The connection whose timer the event is. -/
def WorkerEvent.timerOf : WorkerEvent → Option ℕ
  | .timer id => some id
  | _ => none

/-- The reading that the event loop takes from the clock. -/
def WorkerEvent.clockOf : WorkerEvent → Option ℕ
  | .clock now => some now
  | _ => none

/-- A worker, and for each connection the reading of the last event that refreshed it. -/
structure Clocked where
  worker : Worker
  reading : ℕ → ℕ

namespace Clocked

def init (timeout : ℕ) (sslOpen : Bool) (now : ℕ) : Clocked :=
  ⟨Worker.init timeout sslOpen now, fun _ => 0⟩

def step (s : Clocked) (e : WorkerEvent) : Option Clocked :=
  (s.worker.step e).map fun w =>
    ⟨w, fun id => if e.refreshes s.worker id then s.worker.now else s.reading id⟩

end Clocked

/-- The connections `objs` are those of `w`, and the stamps of those that `r` names are new. -/
def Stamps (w : Worker) (r : ℕ → Bool) (objs : List Conn) : Prop :=
  ∀ i c', objs[i]? = some c' →
    (r i = true ∧ c'.last = w.now) ∨ (r i = false ∧ ∃ c, w.objs[i]? = some c ∧ c'.last = c.last)

variable {w w' : Worker} {e : WorkerEvent} {id fd : ℕ} {c d : Conn} {r : ℕ → Bool}

theorem Stamps.same (h : ∀ i, r i = false) : Stamps w r w.objs :=
  fun i c' hobj => Or.inr ⟨h i, c', hobj, rfl⟩

theorem Stamps.set (hobj : w.objs[id]? = some c) (hd : d.last = if r id then w.now else c.last)
    (hr : ∀ i, i ≠ id → r i = false) : Stamps w r (w.objs.set id d) := by
  intro i c' hc'
  rcases List.set_cases hc' with ⟨rfl, rfl⟩ | ⟨hne, hc'⟩
  · cases hri : r i with
    | true =>
      rw [hri, if_pos rfl] at hd
      exact Or.inl ⟨rfl, hd⟩
    | false =>
      rw [hri, if_neg Bool.false_ne_true] at hd
      exact Or.inr ⟨rfl, c, hobj, hd⟩
  · exact Or.inr ⟨hr i hne, c', hc', rfl⟩

theorem Stamps.stamp (hobj : w.objs[id]? = some c) (hd : d.last = w.now) (hself : r id = true)
    (hr : ∀ i, i ≠ id → r i = false) : Stamps w r (w.objs.set id d) := by
  refine .set hobj ?_ hr
  rw [if_pos hself]
  exact hd

/-- A read event stamps its connection, also when it removes it. -/
theorem reads_last {env : IoEnv} (h : Reads w id env c w') : ∃ d, w'.objs = w.objs.set id d ∧ d.last = w.now := by
  cases h with
  | @fails c cause hrecv => exact ⟨(Conn.tcp c).stamp w.now, List.set_set .., rfl⟩
  | @waits c c₁ hrecv hwait =>
    obtain ⟨buf, rfl⟩ := recv_shape hrecv
    exact ⟨_, rfl, rfl⟩
  | @handled c c₁ hrecv hready =>
    obtain ⟨buf, hc₁⟩ := recv_shape hrecv
    have hlast : c₁.lastInteraction = w.now := by rw [hc₁]
    cases env.answer with
    | leave calls ret => exact ⟨_, rfl, (runCalls_keeps calls c₁).2.trans hlast⟩
    | close => exact ⟨(Conn.tcp c₁).stamp w.now, List.set_set .., rfl⟩
    | remove => exact ⟨(Conn.tcp c₁).stamp w.now, List.set_set .., rfl⟩
  | @dgram c c₁ hrecv =>
    have hlast : c₁.lastInteraction = w.now := (udpRecv_keeps hrecv).2
    cases env.answer with
    | leave calls ret => exact ⟨_, rfl, (runUdp_keeps calls c₁).2.trans hlast⟩
    | close => exact ⟨(Conn.udp c₁).stamp w.now, List.set_set .., rfl⟩
    | remove => exact ⟨(Conn.udp c₁).stamp w.now, List.set_set .., rfl⟩

theorem writes_last {ks : List Sink} (h : Writes w id ks c w') :
    ∃ d, w'.objs = w.objs.set id d ∧ d.last = if c.writeEnds w.now ks then w.now else c.last := by
  cases h with
  | @fails c hstop =>
    refine ⟨(Conn.tcp (tcpWriteIo w.now ks c).conn).stamp w.now, List.set_set .., ?_⟩
    have hends : (Conn.tcp c).writeEnds w.now ks = true := decide_eq_true (Or.inr hstop)
    rw [if_pos hends]
    rfl
  | @ends c hstop =>
    refine ⟨_, rfl, ?_⟩
    have hkeeps := (tcpWriteIo_keeps w.now ks c).2
    rcases hstop with hstop | hstop
    · have hends : (Conn.tcp c).writeEnds w.now ks = true := decide_eq_true (Or.inl hstop)
      rw [hstop, if_pos rfl] at hkeeps
      rw [if_pos hends]
      exact hkeeps
    · have hends : ¬ (Conn.tcp c).writeEnds w.now ks = true := by simp [Conn.writeEnds, hstop]
      rw [hstop, if_neg (by decide)] at hkeeps
      rw [if_neg hends]
      exact hkeeps
  | @dgrams c hstop =>
    refine ⟨_, rfl, ?_⟩
    have hkeeps := (udpWriteIo_keeps w.now ks c).2
    have hends : (Conn.udp c).writeEnds w.now ks = true ↔ (udpWriteIo w.now ks c).stop = .drained :=
      decide_eq_true_iff
    rw [if_congr hends rfl rfl]
    exact hkeeps

/-- The next task of the running callback. -/
theorem exec_stamps {t : Task} {ts : List Task} (h : Worker.exec { w with todo := ts } t = some w') :
    Stamps w (t.refreshes w) w'.objs := by
  -- the connection at a descriptor, and no other
  have hfound : ∀ {fd id}, w.lookup fd = some id → ∀ i, i ≠ id → decide (w.lookup fd = some i) = false := by
    intro fd id hlook i hne
    rw [hlook]
    exact decide_eq_false fun heq => hne (Option.some.inj heq).symm
  have hself : ∀ {fd id}, w.lookup fd = some id → decide (w.lookup fd = some id) = true :=
    fun h => decide_eq_true h
  have hnone : ∀ {fd}, w.lookup fd = none → ∀ i, decide (w.lookup fd = some i) = false := by
    intro fd hlook i
    rw [hlook]
    exact decide_eq_false (Option.some_ne_none i).symm
  cases t with
  | readIo fd env =>
    rcases readIo_reads h with ⟨hlook, rfl⟩ | ⟨id, c, hlook, hobj, hr⟩
    · exact .same (hnone hlook)
    · obtain ⟨d, hobjs, hlast⟩ := reads_last hr
      rw [hobjs]
      exact .stamp hobj hlast (hself hlook) (hfound hlook)
  | writeIo fd ks =>
    rcases writeIo_writes h with ⟨hlook, rfl⟩ | ⟨id, c, hlook, hobj, hw⟩
    · refine .same fun i => decide_eq_false fun hi => ?_
      exact absurd hi.1 (of_decide_eq_false (hnone hlook i))
    · obtain ⟨d, hobjs, hlast⟩ := writes_last hw
      have hends : Task.refreshes w id (.writeIo fd ks) = c.writeEnds w.now ks := by
        have hobj' : w.objs[id]? = some c := hobj
        have hlook' : w.lookup fd = some id := hlook
        simp only [Task.refreshes, hobj', hlook', Option.any_some, true_and, Bool.decide_eq_true]
      rw [hobjs]
      refine .set hobj ?_ ?_
      · rw [hlast, hends]
      · intro i hne
        exact decide_eq_false fun hi => absurd hi.1 (of_decide_eq_false (hfound hlook i hne))
  | returned i ret =>
    simp only [Worker.exec] at h
    split at h
    · rename_i hret
      obtain ⟨c, hobj, rfl⟩ := Option.map_eq_some_iff.1 h
      refine .stamp hobj (Conn.last_stamp c w.now) (decide_eq_true ⟨rfl, hret⟩) ?_
      intro j hne
      exact decide_eq_false fun hj => hne hj.1.symm
    · rename_i hret
      rw [← Option.some.inj h]
      exact .same fun j => decide_eq_false fun hj => hret hj.2
  | close i fd =>
    rw [← Option.some.inj h]
    exact .same fun j => rfl
  | closeSlot fd =>
    simp only [Worker.exec] at h
    split at h
    · rename_i hlook
      rw [← Option.some.inj h]
      exact .same (hnone hlook)
    · rename_i id hlook
      obtain ⟨c, hobj, rfl⟩ := Option.map_eq_some_iff.1 h
      exact .stamp hobj (Conn.last_stamp c w.now) (hself hlook) (hfound hlook)

/-- **An event stamps the connections that it refreshes, and no others.** -/
theorem step_stamps (h : w.step e = some w') : Stamps w (e.refreshes w) w'.objs := by
  cases worker_moves h with
  | @next t ts w' htodo hexec =>
    have hhead : ∀ i, WorkerEvent.refreshes w i .next = t.refreshes w i := by
      intro i
      simp only [WorkerEvent.refreshes, htodo, List.head?_cons, Option.any_some]
    have hstamps : Stamps w (t.refreshes w) w'.objs := exec_stamps hexec
    rwa [← funext hhead] at hstamps
  | clock _ => exact .same fun i => rfl
  | @create s _ =>
    obtain ⟨d, hobjs, -, hlast⟩ := createConnection_objs (w := w) s
    intro i c' hobj
    rw [hobjs] at hobj
    rcases List.concat_cases hobj with hold | ⟨hi, rfl⟩
    · have hlt : i < w.objs.length := (List.getElem?_eq_some_iff.1 hold).1
      exact Or.inr ⟨decide_eq_false hlt.ne, c', hold, rfl⟩
    · exact Or.inl ⟨decide_eq_true hi, hlast⟩
  | io _ _ => exact .same fun i => rfl
  | @timer id c _ _ hobj =>
    have hany : (w.objs[id]?).any (fun c => w.expired c) = decide (w.expired c) := by rw [hobj]; rfl
    have hother : ∀ i, i ≠ id → WorkerEvent.refreshes w i (.timer id) = false := by
      intro i hne
      exact decide_eq_false fun hi => hne hi.1.symm
    unfold Worker.processTimeout
    dsimp only
    split
    · rename_i hexp
      have hset : (w.objs.set id c).set id (c.stamp w.now) = w.objs.set id (c.stamp w.now) := List.set_set ..
      change Stamps w _ ((w.objs.set id c).set id (c.stamp w.now))
      rw [hset]
      refine .stamp hobj (Conn.last_stamp c w.now) ?_ hother
      exact decide_eq_true ⟨rfl, by rw [hany]; exact decide_eq_true hexp⟩
    · rename_i hexp
      refine .set hobj ?_ hother
      have hself : ¬ WorkerEvent.refreshes w id (.timer id) = true := by
        intro hr
        have hr := (of_decide_eq_true hr).2
        rw [hany] at hr
        exact hexp (of_decide_eq_true hr)
      rw [if_neg hself]
  | @reply id r c _ _ hobj =>
    refine .set hobj ?_ fun i _ => rfl
    rw [Conn.last_addReply]
    rfl
  | stop _ _ => exact .same fun i => rfl

/-! ## The decisions of a run -/

/-- The clock gives unsigned 64-bit numbers. -/
def ClockFits (e : WorkerEvent) : Prop := ∀ now ∈ e.clockOf, now < 2 ^ 64

instance (e : WorkerEvent) : Decidable (ClockFits e) := inferInstanceAs (Decidable (∀ _ ∈ _, _))

/-- `process_timeout` closes the connection exactly if more than the timeout has passed since the
event that refreshed it last. -/
def TimerExact (s : Clocked) (e : WorkerEvent) : Prop :=
  ∀ id ∈ e.timerOf, ∀ w' ∈ s.worker.step e,
    (id ∈ w'.closing ↔ (s.worker.connectionTimeout : ℤ) < (s.worker.now : ℤ) - s.reading id)

instance (s : Clocked) (e : WorkerEvent) : Decidable (TimerExact s e) :=
  inferInstanceAs (Decidable (∀ _ ∈ _, ∀ _ ∈ _, (_ ↔ _)))

/-- The connection that the timer looks at was not refreshed in the future, or so far in the future
that the wrapped difference is again within the timeout. -/
def TimerInOrder (s : Clocked) (e : WorkerEvent) : Prop :=
  ∀ id ∈ e.timerOf, (s.worker.step e).isSome = true →
    s.reading id ≤ s.worker.now ∨ s.worker.now + 2 ^ 64 ≤ s.worker.connectionTimeout + s.reading id

instance (s : Clocked) (e : WorkerEvent) : Decidable (TimerInOrder s e) :=
  inferInstanceAs (Decidable (∀ _ ∈ _, _ → _ ∨ _))

/-- What a run keeps. -/
structure ClockedOK (timeout : ℕ) (s : Clocked) : Prop where
  timeout_eq : s.worker.connectionTimeout = timeout
  now_lt : s.worker.now < 2 ^ 64
  reading_lt : ∀ id, s.reading id < 2 ^ 64
  stamped : ∀ id c, s.worker.objs[id]? = some c → c.last = s.reading id

theorem exec_settings {t : Task} (h : w.exec t = some w') :
    w'.connectionTimeout = w.connectionTimeout ∧ w'.now = w.now := by
  rcases exec_cases h with rfl | ⟨i, fd, -, rfl⟩ | ⟨i, ret, c, -, -, rfl⟩ | ⟨fd, i, c, -, -, hf⟩
  · exact ⟨rfl, rfl⟩
  · exact ⟨rfl, rfl⟩
  · exact ⟨rfl, rfl⟩
  · cases hf with
    | visited hv => cases hv <;> exact ⟨rfl, rfl⟩
    | slot hw => rw [hw]; exact ⟨rfl, rfl⟩
    | handler ht ha hrem htcp => cases hrem <;> exact ⟨rfl, rfl⟩
    | stalled ht hs hfd hlast hw => rw [hw]; exact ⟨rfl, rfl⟩

/-- The timeout is fixed, and the clock moves when the loop reads it. -/
theorem step_settings (h : w.step e = some w') :
    w'.connectionTimeout = w.connectionTimeout ∧ (w'.now = w.now ∨ e = .clock w'.now) := by
  cases worker_moves h with
  | next htodo hexec =>
    have hset := exec_settings hexec
    exact ⟨hset.1, Or.inl hset.2⟩
  | clock _ => exact ⟨rfl, Or.inr rfl⟩
  | create _ => exact ⟨rfl, Or.inl rfl⟩
  | io _ _ => exact ⟨rfl, Or.inl rfl⟩
  | timer _ _ _ =>
    unfold Worker.processTimeout
    dsimp only
    split <;> exact ⟨rfl, Or.inl rfl⟩
  | reply _ _ _ => exact ⟨rfl, Or.inl rfl⟩
  | stop _ _ => exact ⟨rfl, Or.inl rfl⟩

variable {timeout : ℕ} {s s' : Clocked}

theorem init_clocked_ok (timeout : ℕ) (sslOpen : Bool) {now : ℕ} (hnow : now < 2 ^ 64) :
    ClockedOK timeout (Clocked.init timeout sslOpen now) := by
  refine ⟨rfl, hnow, ?_, ?_⟩
  · intro id
    exact Nat.two_pow_pos 64
  · intro id c hobj
    cases hobj

theorem step_clocked_ok (h : ClockedOK timeout s) (hfits : ClockFits e) (hst : s.step e = some s') :
    ClockedOK timeout s' := by
  obtain ⟨w', hstep, rfl⟩ := Option.map_eq_some_iff.1 hst
  obtain ⟨htimeout, hnow⟩ := step_settings hstep
  refine ⟨htimeout.trans h.timeout_eq, ?_, ?_, ?_⟩
  · rcases hnow with hnow | rfl
    · exact lt_of_eq_of_lt hnow h.now_lt
    · exact hfits w'.now rfl
  · intro id
    dsimp only
    split
    · exact h.now_lt
    · exact h.reading_lt id
  · intro id c hobj
    dsimp only
    rcases step_stamps hstep id c hobj with ⟨hr, hlast⟩ | ⟨hr, c₀, hobj₀, hlast⟩
    · rw [if_pos hr]
      exact hlast
    · have hnot : ¬ e.refreshes s.worker id = true := Bool.eq_false_iff.mp hr
      rw [if_neg hnot, hlast]
      exact h.stamped id c₀ hobj₀

/-- The connection is closed exactly if the unsigned difference is above the timeout. -/
theorem timer_closes_iff (hid : e.timerOf = some id) (hst : w.step e = some w') :
    ∃ c, w.objs[id]? = some c ∧ (id ∈ w'.closing ↔ w.expired c) := by
  cases worker_moves hst with
  | @timer id' c hidle hwatched hobj =>
    obtain rfl : id' = id := Option.some.inj hid
    refine ⟨c, hobj, ?_⟩
    unfold Worker.processTimeout
    dsimp only
    split
    · rename_i hexp
      exact iff_of_true List.mem_cons_self hexp
    · rename_i hexp
      have hnil : (w.visit id' c []).closing = [] := by
        unfold Worker.closing Worker.visit
        rw [hidle]
        rfl
      rw [hnil]
      exact iff_of_false List.not_mem_nil hexp
  | _ => cases hid

/-- The unsigned difference against the timeout. -/
theorem expired_iff (hnow : w.now < 2 ^ 64) (hlast : c.last < 2 ^ 64) :
    w.expired c ↔ (if c.last ≤ w.now then w.connectionTimeout < w.now - c.last
      else w.connectionTimeout + c.last < w.now + 2 ^ 64) := by
  unfold Worker.expired Conn.last at *
  unfold toSize
  split <;> omega

/-- **One decision.** -/
theorem decision_iff (h : ClockedOK timeout s) (hid : e.timerOf = some id) (hst : s.worker.step e = some w') :
    (id ∈ w'.closing ↔ (s.worker.connectionTimeout : ℤ) < (s.worker.now : ℤ) - s.reading id) ↔
      s.reading id ≤ s.worker.now ∨ s.worker.now + 2 ^ 64 ≤ s.worker.connectionTimeout + s.reading id := by
  obtain ⟨c, hobj, hcloses⟩ := timer_closes_iff hid hst
  have hlast : c.last = s.reading id := h.stamped id c hobj
  have hlt : c.last < 2 ^ 64 := by rw [hlast]; exact h.reading_lt id
  have hexp := expired_iff h.now_lt hlt
  rw [hlast] at hexp
  rw [hcloses, hexp]
  split <;> omega

theorem timerExact_iff_inOrder (h : ClockedOK timeout s) : TimerExact s e ↔ TimerInOrder s e := by
  constructor
  · intro hexact id hid hsome
    obtain ⟨w', hst⟩ := Option.isSome_iff_exists.mp hsome
    exact (decision_iff h hid hst).mp (hexact id hid w' hst)
  · intro horder id hid w' hst
    exact (decision_iff h hid hst).mpr (horder id hid (Option.isSome_iff_exists.mpr ⟨w', hst⟩))

/-- **The timer decides by the time that has passed**, in every run of a worker with any clock
readings, exactly if it never looks at a connection that was refreshed in the future: a
clock that was set back makes the unsigned difference huge. -/
theorem timer_exact_iff (timeout : ℕ) (sslOpen : Bool) {now : ℕ} (hnow : now < 2 ^ 64) {es : List WorkerEvent}
    (hclock : ∀ e ∈ es, ClockFits e) :
    Along Clocked.step TimerExact (Clocked.init timeout sslOpen now) es ↔
      Along Clocked.step TimerInOrder (Clocked.init timeout sslOpen now) es := by
  have hinit : ClockedOK timeout (Clocked.init timeout sslOpen now) := init_clocked_ok timeout sslOpen hnow
  have hfits : Along Clocked.step (fun _ e => ClockFits e) (Clocked.init timeout sslOpen now) es :=
    along_of_forall hclock
  constructor
  · intro hexact
    refine Along.mono_inv ?_ ?_ hinit (hfits.and hexact)
    · intro s e s' hs he hst
      exact step_clocked_ok hs he.1 hst
    · intro s e hs he
      exact (timerExact_iff_inOrder hs).mp he.2
  · intro horder
    refine Along.mono_inv ?_ ?_ hinit (hfits.and horder)
    · intro s e s' hs he hst
      exact step_clocked_ok hs he.1 hst
    · intro s e hs he
      exact (timerExact_iff_inOrder hs).mpr he.2

/-- The timer looks twice at a connection, 50 and 150 after it was created. -/
theorem timer_exact_forward :
    Along Clocked.step TimerExact (Clocked.init 100 false 1000)
      [.create ⟨0, .tcp, 7⟩, .clock 1050, .timer 0, .clock 1150, .timer 0] :=
  (timer_exact_iff 100 false (by decide) (by decide)).mpr (by decide +kernel)

/-- The clock is set back by one: the timer closes a connection that was just created. -/
theorem clock_set_back_closes :
    ¬ Along Clocked.step TimerExact (Clocked.init 100 false 1000)
    [.create ⟨0, .tcp, 7⟩, .clock 999, .timer 0] := by
  decide +kernel

end Spigeon
