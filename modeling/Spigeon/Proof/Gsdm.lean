import Mathlib.Data.List.Basic
import Mathlib.Data.List.Count
import Spigeon.Lib.Lts
import Spigeon.Spec.Gsdm

/-!
# Commands and their notifications

Each pair of a source and a type has its own queue, and all pairs share the socket. A
command that waits has its notification in the socket, in the hands of its source, or in
the hands of the destination; a notification that is processed again takes a command early and
leaves its own notification without one.

* `find_put`, `find_touch`: the two-level map is a map of the pairs.
* `GsdmOK`, `step_gsdm_ok`: the balance of each queue, and the bound on its length.
* `commands_in_order`: the result for all runs.
-/

namespace Spigeon

open Lts

variable {α : Type}

/-! ## The map -/

theorem WorkerQueue.find_eq_entry (m : WorkerQueue α) (src : UInt32) (type : Int32) :
    m.find src type = m.entry src type := by
  unfold WorkerQueue.find WorkerQueue.entry
  cases m src with
  | none => rfl
  | some qh => rfl

theorem WorkerQueue.find_put (m : WorkerQueue α) (src src' : UInt32) (type type' : Int32) (q : List (Option α)) :
    (m.put src type q).find src' type' = if src' = src ∧ type' = type then some q else m.find src' type' := by
  rw [WorkerQueue.find_eq_entry m src' type']
  unfold WorkerQueue.find WorkerQueue.put
  by_cases hsrc : src' = src
  · subst hsrc
    by_cases htype : type' = type
    · subst htype
      simp
    · simp [htype]
  · rw [Function.update_of_ne hsrc, if_neg fun h => hsrc h.1]
    exact m.find_eq_entry src' type'

theorem WorkerQueue.find_touch (m : WorkerQueue α) (src src' : UInt32) (type' : Int32) :
    (m.touch src).find src' type' = m.find src' type' := by
  rw [WorkerQueue.find_eq_entry m src' type']
  unfold WorkerQueue.find WorkerQueue.touch
  by_cases hsrc : src' = src
  · subst hsrc
    simp
  · rw [Function.update_of_ne hsrc]
    exact m.find_eq_entry src' type'

namespace NewGenericWorker

/-- The commands that wait for a pair. -/
def queue (s : NewGenericWorker α) (p : CmdInfo) : List (Option α) :=
  (s.workerQueue.find p.workerId p.cmdType).getD []

/-- The destination is at work on a notification of the pair that it has just received. -/
def AtWork (s : NewGenericWorker α) (p : CmdInfo) : Prop :=
  (s.handling = .lookup true ∨ s.handling = .take true) ∧ s.unixWaitBuf = p

instance (s : NewGenericWorker α) (p : CmdInfo) : Decidable (s.AtWork p) := by unfold AtWork; infer_instance

/-- The notifications of the pair that were sent and not processed. -/
def undelivered (s : NewGenericWorker α) (p : CmdInfo) : ℕ := s.unixSock.count p + if s.AtWork p then 1 else 0

/-- The source of the pair is inside `send_cmd`, between `produce` and `notify_unix`. -/
def inSend (s : NewGenericWorker α) (p : CmdInfo) : ℕ := if s.sending p.workerId.toInt32 = some p then 1 else 0

end NewGenericWorker

structure GsdmOK (s : NewGenericWorker α) : Prop where
  balance : ∀ p, (s.processed p).map some ++ s.queue p = s.sent p
  bound : ∀ p, (s.queue p).length ≤ s.undelivered p + s.inSend p
  source : ∀ src info, s.sending src = some info → info.workerId.toInt32 = src
  nonNull : ∀ p, none ∉ s.sent p

variable {s s' : NewGenericWorker α}

theorem init_gsdm_ok : GsdmOK (NewGenericWorker.init : NewGenericWorker α) := by
  refine ⟨fun p => rfl, fun p => Nat.zero_le _, ?_, fun p => List.not_mem_nil⟩
  intro src info hsend
  cases hsend

/-! ## Queues, sources and the destination -/

theorem queue_put {src : UInt32} {type : Int32} {q : List (Option α)}
    (hq : s'.workerQueue = s.workerQueue.put src type q) : s'.queue = Function.update s.queue ⟨src, type⟩ q := by
  funext p
  unfold NewGenericWorker.queue
  rw [hq, WorkerQueue.find_put]
  by_cases hp : p = ⟨src, type⟩
  · subst hp
    simp
  · have hne : ¬ (p.workerId = src ∧ p.cmdType = type) := fun h => hp (congrArg₂ CmdInfo.mk h.1 h.2)
    rw [if_neg hne, Function.update_of_ne hp]

theorem queue_touch {src : UInt32} (hq : s'.workerQueue = s.workerQueue.touch src) : s'.queue = s.queue := by
  funext p
  unfold NewGenericWorker.queue
  rw [hq, WorkerQueue.find_touch]

/-- `setup_queue` adds a queue without commands. -/
theorem setupQueue_queue (s : NewGenericWorker α) (src : UInt32) (type : Int32) :
    ∃ m, s.setupQueue src type = { s with workerQueue := m } ∧
      ({ s with workerQueue := m } : NewGenericWorker α).queue = s.queue := by
  unfold NewGenericWorker.setupQueue
  cases hfind : s.workerQueue.find src type with
  | some q => exact ⟨s.workerQueue, rfl, rfl⟩
  | none =>
    have hempty : s.queue ⟨src, type⟩ = [] := by
      simp only [NewGenericWorker.queue, hfind, Option.getD_none]
    refine ⟨s.workerQueue.put src type [], rfl, ?_⟩
    rw [queue_put (s := s) rfl, ← hempty, Function.update_eq_self]

theorem lookedUp_none (h : s.lookedUp = none) : s.queue s.unixWaitBuf = [] := by
  have hfind : s.workerQueue.find s.unixWaitBuf.workerId s.unixWaitBuf.cmdType = none := h
  unfold NewGenericWorker.queue
  rw [hfind, Option.getD_none]

theorem lookedUp_queue {q : List (Option α)} (h : s.lookedUp = some q) : s.queue s.unixWaitBuf = q := by
  have hfind : s.workerQueue.find s.unixWaitBuf.workerId s.unixWaitBuf.cmdType = some q := h
  unfold NewGenericWorker.queue
  rw [hfind, Option.getD_some]

/-- The source of another pair is as it was. -/
theorem inSend_update {src : Int32} {info : Option CmdInfo} {p : CmdInfo}
    (hsend : s'.sending = Function.update s.sending src info) (hold : s.sending src ≠ some p)
    (hnew : info ≠ some p) :
    s'.inSend p = s.inSend p := by
  unfold NewGenericWorker.inSend
  rw [hsend]
  by_cases hsrc : p.workerId.toInt32 = src
  · rw [hsrc, Function.update_self, if_neg hnew, if_neg hold]
  · rw [Function.update_of_ne hsrc]

theorem not_atWork_of_idle (h : s.handling = .idle) (p : CmdInfo) : ¬ s.AtWork p := by
  rintro ⟨hwork | hwork, -⟩
  · exact absurd (h.symm.trans hwork) (by decide)
  · exact absurd (h.symm.trans hwork) (by decide)

theorem undelivered_of_not_atWork {p : CmdInfo} (h : ¬ s.AtWork p) : s.undelivered p = s.unixSock.count p := by
  unfold NewGenericWorker.undelivered
  rw [if_neg h, Nat.add_zero]

/-- The destination has just received a notification. -/
theorem undelivered_recv (h : s.handling = .lookup true) (p : CmdInfo) :
    s.undelivered p = (s.unixWaitBuf :: s.unixSock).count p := by
  have hwork : s.AtWork p ↔ s.unixWaitBuf = p := ⟨fun hw => hw.2, fun hbuf => ⟨.inl h, hbuf⟩⟩
  unfold NewGenericWorker.undelivered
  rw [List.count_cons, if_congr hwork rfl rfl]
  simp only [beq_iff_eq]

theorem undelivered_le (s : NewGenericWorker α) (p : CmdInfo) : s.undelivered p ≤ s.unixSock.count p + 1 := by
  unfold NewGenericWorker.undelivered
  split
  · exact Nat.le_refl _
  · exact Nat.le_succ _

/-! ## Steps -/

/-- A step that leaves queues and sources alone. -/
theorem GsdmOK.frame (h : GsdmOK s) (hqueue : s'.queue = s.queue) (hproc : s'.processed = s.processed)
    (hsent : s'.sent = s.sent) (hsend : s'.sending = s.sending)
    (hbound : ∀ p, (s.queue p).length ≤ s.undelivered p + s.inSend p →
      (s.queue p).length ≤ s'.undelivered p + s.inSend p) : GsdmOK s' := by
  refine ⟨fun p => ?_, fun p => ?_, ?_, ?_⟩
  · rw [hqueue, hproc, hsent]
    exact h.balance p
  · have hin : s'.inSend p = s.inSend p := by
      unfold NewGenericWorker.inSend
      rw [hsend]
    rw [hqueue, hin]
    exact hbound p (h.bound p)
  · rw [hsend]
    exact h.source
  · rw [hsent]
    exact h.nonNull

/-- A command is queued, and its source is about to send the notification. -/
theorem GsdmOK.produce (h : GsdmOK s) {src : Int32} {key : CmdInfo} {cmd : Option α}
    (hkey : key.workerId.toInt32 = src) (hidle : s.sending src = none) (hcmd : cmd ≠ none)
    (hqueue : s'.queue = Function.update s.queue key (s.queue key ++ [cmd])) (hproc : s'.processed = s.processed)
    (hsent : s'.sent = Function.update s.sent key (s.sent key ++ [cmd]))
    (hsend : s'.sending = Function.update s.sending src (some key))
    (hund : ∀ p, s'.undelivered p = s.undelivered p) : GsdmOK s' := by
  refine ⟨fun p => ?_, fun p => ?_, ?_, fun p => ?_⟩
  · rw [hqueue, hproc, hsent]
    by_cases hp : p = key
    · subst hp
      rw [Function.update_self, Function.update_self, ← List.append_assoc, h.balance p]
    · rw [Function.update_of_ne hp, Function.update_of_ne hp]
      exact h.balance p
  · have hbound := h.bound p
    rw [hqueue, hund]
    by_cases hp : p = key
    · subst hp
      -- one command more in the queue, and one notification more to come
      have hin : s'.inSend p = 1 := by
        unfold NewGenericWorker.inSend
        rw [hsend, hkey, Function.update_self, if_pos rfl]
      have hout : s.inSend p = 0 := by
        unfold NewGenericWorker.inSend
        rw [hkey, hidle, if_neg (Option.some_ne_none p).symm]
      rw [Function.update_self, List.length_append, List.length_singleton]
      omega
    · have hin : s'.inSend p = s.inSend p := by
        refine inSend_update hsend ?_ fun he => hp (Option.some.inj he).symm
        rw [hidle]
        exact (Option.some_ne_none p).symm
      rw [Function.update_of_ne hp, hin]
      exact hbound
  · intro src' info hinfo
    rw [hsend] at hinfo
    by_cases hsrc : src' = src
    · rw [hsrc, Function.update_self, Option.some.injEq] at hinfo
      rw [← hinfo, hkey, hsrc]
    · rw [Function.update_of_ne hsrc] at hinfo
      exact h.source src' info hinfo
  · rw [hsent]
    by_cases hp : p = key
    · rw [hp, Function.update_self, List.mem_append, List.mem_singleton, not_or]
      exact ⟨h.nonNull key, hcmd.symm⟩
    · rw [Function.update_of_ne hp]
      exact h.nonNull p

/-- A notification goes from its source to the socket. -/
theorem GsdmOK.notify (h : GsdmOK s) {src : Int32} {info : CmdInfo} (hinfo : s.sending src = some info)
    (hqueue : s'.queue = s.queue) (hproc : s'.processed = s.processed) (hsent : s'.sent = s.sent)
    (hsend : s'.sending = Function.update s.sending src none)
    (hund : ∀ p, s'.undelivered p = s.undelivered p + if info = p then 1 else 0) : GsdmOK s' := by
  refine ⟨fun p => ?_, fun p => ?_, ?_, ?_⟩
  · rw [hqueue, hproc, hsent]
    exact h.balance p
  · have hbound := h.bound p
    rw [hqueue, hund]
    by_cases hp : info = p
    · have hin : s.inSend p ≤ 1 := by
        unfold NewGenericWorker.inSend
        split
        · exact Nat.le_refl _
        · exact Nat.zero_le 1
      rw [if_pos hp]
      omega
    · have hin : s'.inSend p = s.inSend p := by
        refine inSend_update hsend ?_ (Option.some_ne_none p).symm
        rw [hinfo]
        exact fun he => hp (Option.some.inj he)
      rw [if_neg hp, hin]
      exact hbound
  · intro src' info' hinfo'
    rw [hsend] at hinfo'
    by_cases hsrc : src' = src
    · rw [hsrc, Function.update_self] at hinfo'
      cases hinfo'
    · rw [Function.update_of_ne hsrc] at hinfo'
      exact h.source src' info' hinfo'
  · rw [hsent]
    exact h.nonNull

/-- The front of a queue is processed; the notification at hand has done its work. -/
theorem GsdmOK.take (h : GsdmOK s) {c : α} {rest : List (Option α)}
    (hfront : s.queue s.unixWaitBuf = some c :: rest)
    (hqueue : s'.queue = Function.update s.queue s.unixWaitBuf rest)
    (hproc : s'.processed = Function.update s.processed s.unixWaitBuf (s.processed s.unixWaitBuf ++ [c]))
    (hsent : s'.sent = s.sent) (hsend : s'.sending = s.sending) (hsock : s'.unixSock = s.unixSock)
    (hidle : s'.handling = .idle) : GsdmOK s' := by
  refine ⟨fun p => ?_, fun p => ?_, ?_, ?_⟩
  · have hbal := h.balance p
    rw [hqueue, hproc, hsent]
    by_cases hp : p = s.unixWaitBuf
    · subst hp
      rw [Function.update_self, Function.update_self, ← hbal, hfront, List.map_append, List.append_assoc]
      rfl
    · rw [Function.update_of_ne hp, Function.update_of_ne hp]
      exact hbal
  · have hbound := h.bound p
    have hin : s'.inSend p = s.inSend p := by
      unfold NewGenericWorker.inSend
      rw [hsend]
    rw [hqueue, hin, undelivered_of_not_atWork (not_atWork_of_idle hidle p), hsock]
    by_cases hp : p = s.unixWaitBuf
    · have hle := undelivered_le s p
      subst hp
      rw [hfront, List.length_cons] at hbound
      rw [Function.update_self]
      omega
    · rw [Function.update_of_ne hp, ← undelivered_of_not_atWork fun hw => hp hw.2.symm]
      exact hbound
  · rw [hsend]
    exact h.source
  · rw [hsent]
    exact h.nonNull

/-- A notification whose queue is empty, or was not set up. -/
theorem GsdmOK.miss (h : GsdmOK s) (hempty : s.queue s.unixWaitBuf = []) :
    GsdmOK { s with handling := .idle } := by
  refine h.frame rfl rfl rfl rfl fun p hp => ?_
  by_cases hbuf : s.unixWaitBuf = p
  · rw [← hbuf, hempty]
    exact Nat.zero_le _
  · rw [undelivered_of_not_atWork fun hw => hbuf hw.2] at hp
    rw [undelivered_of_not_atWork (not_atWork_of_idle rfl p)]
    exact hp

/-- `send_cmd` with a command that is not `nullptr`. -/
def GsdmEvent.nonNull : GsdmEvent α → Bool
  | .send _ _ none => false
  | _ => true

/-- **Queues and notifications stay matched.** -/
theorem step_gsdm_ok {e : GsdmEvent α} (h : GsdmOK s) (he : e.nonNull = true) (hst : s.step e = some s') :
    GsdmOK s' := by
  cases e with
  | setup src type =>
    simp only [NewGenericWorker.step, Option.some.injEq] at hst
    subst hst
    obtain ⟨m, hm, hqueue⟩ := setupQueue_queue s src type
    rw [hm]
    exact h.frame hqueue rfl rfl rfl fun p hp => hp
  | send src type cmd =>
    simp only [NewGenericWorker.step, Option.ite_none_right_eq_some, Option.some.injEq] at hst
    obtain ⟨hidle, rfl⟩ := hst
    have hcmd : cmd ≠ none := by
      rintro rfl
      cases he
    unfold NewGenericWorker.sendCmd
    cases hfind : s.workerQueue.entry src.toUInt32 type with
    | none => exact h.frame (queue_touch rfl) rfl rfl rfl fun p hp => hp
    | some q =>
      have hold : s.queue ⟨src.toUInt32, type⟩ = q := by
        simp only [NewGenericWorker.queue, WorkerQueue.find_eq_entry, hfind, Option.getD_some]
      subst hold
      have hkey : (⟨src.toUInt32, type⟩ : CmdInfo).workerId.toInt32 = src := rfl
      exact h.produce hkey hidle hcmd (queue_put rfl) rfl rfl rfl fun p => rfl
  | notify src =>
    simp only [NewGenericWorker.step, Option.map_eq_some_iff] at hst
    obtain ⟨info, hinfo, rfl⟩ := hst
    refine h.notify hinfo rfl rfl rfl rfl fun p => ?_
    have hcount : (s.unixSock ++ [info]).count p = s.unixSock.count p + if info = p then 1 else 0 := by
      rw [List.count_append, List.count_singleton']
    unfold NewGenericWorker.undelivered
    dsimp only
    rw [hcount, Nat.add_right_comm]
    rfl
  | recv =>
    simp only [NewGenericWorker.step] at hst
    split at hst
    · rename_i info rest hidle hsock
      cases hst
      refine h.frame rfl rfl rfl rfl fun p hp => ?_
      rw [undelivered_of_not_atWork (not_atWork_of_idle hidle p), hsock] at hp
      rw [undelivered_recv rfl]
      exact hp
    · cases hst
  | recvFails =>
    simp only [NewGenericWorker.step, Option.ite_none_right_eq_some, Option.some.injEq] at hst
    obtain ⟨hidle, rfl⟩ := hst
    -- the old buffer is looked up once more, and no notification is used up
    refine h.frame rfl rfl rfl rfl fun p hp => Nat.le_trans hp (Nat.add_le_add_right ?_ _)
    rw [undelivered_of_not_atWork (not_atWork_of_idle hidle p)]
    exact Nat.le_add_right _ _
  | lookup =>
    cases hlookup : s.handling with
    | idle | take _ => simp only [NewGenericWorker.step, hlookup, reduceCtorEq] at hst
    | lookup fresh =>
      cases hfound : s.lookedUp with
      | none =>
        simp only [NewGenericWorker.step, hlookup, hfound, Option.some.injEq] at hst
        exact hst ▸ h.miss (lookedUp_none hfound)
      | some q =>
        cases q with
        | nil =>
          simp only [NewGenericWorker.step, hlookup, hfound, Option.some.injEq] at hst
          exact hst ▸ h.miss (lookedUp_queue hfound)
        | cons cmd rest =>
          simp only [NewGenericWorker.step, hlookup, hfound, Option.some.injEq] at hst
          subst hst
          refine h.frame rfl rfl rfl rfl fun p hp => ?_
          have hwork : ({ s with handling := .take fresh } : NewGenericWorker α).AtWork p ↔ s.AtWork p := by
            simp only [NewGenericWorker.AtWork, hlookup, Handling.lookup.injEq, Handling.take.injEq, reduceCtorEq,
              false_or, or_false]
          have hund : ({ s with handling := .take fresh } : NewGenericWorker α).undelivered p =
              s.undelivered p := by
            unfold NewGenericWorker.undelivered
            rw [if_congr hwork rfl rfl]
          rw [hund]
          exact hp
  | take =>
    simp only [NewGenericWorker.step] at hst
    split at hst
    · rename_i fresh cmd rest htake hfound
      have hfront := lookedUp_queue hfound
      -- a NULL command would have been sent
      have hmem : cmd ∈ s.sent s.unixWaitBuf := by
        rw [← h.balance, hfront]
        exact List.mem_append_right _ List.mem_cons_self
      cases cmd with
      | none => exact absurd hmem (h.nonNull _)
      | some c =>
        cases hst
        exact h.take hfront (queue_put rfl) rfl rfl rfl rfl rfl
    · cases hst

/-! ## Result -/

/-- What holds for a pair in every state: its commands are processed in the order in which they were sent, those
that wait have their notifications, and none waits without one. -/
structure PairOK (s : NewGenericWorker α) (p : CmdInfo) : Prop where
  order : (s.processed p).map some <+: s.sent p
  bound : (s.queue p).length ≤ s.undelivered p + s.inSend p
  complete : s.undelivered p = 0 → s.inSend p = 0 → (s.processed p).map some = s.sent p

theorem GsdmOK.pair (h : GsdmOK s) (p : CmdInfo) : PairOK s p := by
  refine ⟨?_, h.bound p, ?_⟩
  · rw [← h.balance p]
    exact List.prefix_append _ _
  · intro hund hin
    have hbound := h.bound p
    have hempty : s.queue p = [] := List.length_eq_zero_iff.1 (by omega)
    rw [← h.balance p, hempty, List.append_nil]

/-- `send_cmd` on a pair that was not set up. -/
theorem sendCmd_unconfigured {src type : Int32} (h : s.workerQueue.find src.toUInt32 type = none)
    (cmd : Option α) :
    (∀ k t, (s.sendCmd src type cmd).workerQueue.find k t = s.workerQueue.find k t) ∧
      (s.sendCmd src type cmd).unixSock = s.unixSock ∧ (s.sendCmd src type cmd).sending = s.sending := by
  rw [WorkerQueue.find_eq_entry] at h
  have heq : s.sendCmd src type cmd = { s with workerQueue := s.workerQueue.touch src.toUInt32 } := by
    simp only [NewGenericWorker.sendCmd, h]
  rw [heq]
  exact ⟨s.workerQueue.find_touch src.toUInt32, rfl, rfl⟩

/-- **Commands are processed once and in order.** In every state of every run, with any
interleaving of sources, and with `recvfrom` failing at any time: the commands processed for a
pair are the first ones sent for it, the commands that wait are at most its notifications that
were not processed, one more while its source is between `produce` and `notify_unix`, and
without these nothing waits. `send_cmd` on a pair that was not set up changes no queue and
sends nothing. -/
theorem commands_in_order (es : List (GsdmEvent α)) (hes : ∀ e ∈ es, e.nonNull = true) :
    Always NewGenericWorker.step
      (fun s => (∀ p, PairOK s p) ∧
        ∀ src type cmd s', s.workerQueue.find src.toUInt32 type = none → s.step (.send src type cmd) = some s' →
          (∀ k t, s'.workerQueue.find k t = s.workerQueue.find k t) ∧ s'.unixSock = s.unixSock ∧
            s'.sending = s.sending)
      NewGenericWorker.init es := by
  have hall : Always NewGenericWorker.step GsdmOK NewGenericWorker.init es :=
    always_along (fun s e s' h he hst => step_gsdm_ok h he hst) init_gsdm_ok (along_of_forall hes)
  refine hall.mono fun s h => ⟨h.pair, ?_⟩
  intro src type cmd s' hfind hst
  simp only [NewGenericWorker.step, Option.ite_none_right_eq_some, Option.some.injEq] at hst
  obtain ⟨-, rfl⟩ := hst
  exact sendCmd_unconfigured hfind cmd

/-- Two sources. A `recvfrom` that fails takes the second command of source 1 before it is notified; the
notification then finds the queue empty. -/
def staleRun : List (GsdmEvent ℕ) :=
  [.setup 1 7, .setup 2 7, .send 1 7 (some 10), .notify 1, .recv, .lookup, .take, .send 2 7 (some 20),
    .send 1 7 (some 11), .recvFails, .lookup, .take, .notify 1, .notify 2, .recv, .lookup, .recv, .lookup, .take]

theorem commands_in_order_stale :
    ∃ s, run NewGenericWorker.step NewGenericWorker.init staleRun = some s ∧ s.processed ⟨1, 7⟩ = [10, 11] ∧
      s.processed ⟨2, 7⟩ = [20] ∧ PairOK s ⟨1, 7⟩ := by
  have hmap : (run NewGenericWorker.step NewGenericWorker.init staleRun).map
      (fun s => (s.processed ⟨1, 7⟩, s.processed ⟨2, 7⟩)) = some ([10, 11], [20]) := by
    decide +kernel
  obtain ⟨s, hrun, hs⟩ := Option.map_eq_some_iff.1 hmap
  obtain ⟨hone, htwo⟩ := Prod.mk.inj hs
  exact ⟨s, hrun, hone, htwo, ((commands_in_order staleRun (by decide)).last hrun).1 _⟩

end Spigeon
