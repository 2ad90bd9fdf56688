import Spigeon.Spec.System

/-!
# What one step of the system can do

* `Moves`: the steps of the dispatcher and of the worker threads, with what has to hold
  before each of them. `step_moves`: there are no others.
* `step_fds`: which descriptors are open after a step.
-/

namespace Spigeon

/-- The dispatcher has a socket to notify a worker of. -/
def Phase.isPushed : Phase → Bool
  | .pushed _ _ => true
  | _ => false

/-- The socket that only the dispatcher knows of. -/
def Phase.held : Phase → Option Socket
  | .accepted sk => some sk
  | _ => none

/-- The dispatcher has no socket in hand. -/
def Phase.free (p : Phase) : Prop := p.isPushed = false ∧ p.held = none

inductive Moves (s : System) : SystemEvent → System → Prop where
  | accept {fd : ℕ} (hphase : s.phase = .idle) (hfd : fd ∉ s.fds) : Moves s (.accept fd) (s.genericAccept fd)
  | push {sk : Socket} {t : WorkerThread} (hphase : s.phase = .accepted sk)
      (ht : s.threads[s.nextWorker]? = some t) : Moves s .push (s.mqPush sk t)
  | notified {i : ℕ} {sk : Socket} {t : WorkerThread} (hphase : s.phase = .pushed i sk)
      (ht : s.threads[i]? = some t) :
      Moves s (.notify true) (s.dispatchEnd i sk true { t with pipe := t.pipe ++ [.newConnection] })
  | unnotified {i : ℕ} {sk : Socket} {t : WorkerThread} (hphase : s.phase = .pushed i sk)
      (ht : s.threads[i]? = some t) : Moves s (.notify false) (s.dispatchEnd i sk false t)
  /-- the dispatcher stops, or waits for its workers -/
  | winds {e : SystemEvent} {p : Phase} (hfree : s.phase.free) (hfree' : p.free)
      (he : e = .stop ∨ e = .join ∨ e = .quit false) : Moves s e { s with phase := p }
  /-- a message other than `NEW_CONNECTION` goes to a worker -/
  | posts {e : SystemEvent} {p : Phase} {i : ℕ} {t : WorkerThread} {m : Msg} (ht : s.threads[i]? = some t)
      (hp : p = s.phase ∨ s.phase.free ∧ p.free) (hm : m ≠ .newConnection) (he : e = .post i ∨ e = .quit true) :
      Moves s e { s.setThread i { t with pipe := t.pipe ++ [m] } with phase := p }
  | recv {i : ℕ} {t : WorkerThread} {m : Msg} {ms : List Msg} (ht : s.threads[i]? = some t) (hmsg : t.msg = none)
      (hpipe : t.pipe = m :: ms) : Moves s (.recv i) (s.setThread i { t with pipe := ms, msg := some m })
  | create {i : ℕ} {t : WorkerThread} {sk : Socket} {mq : List Socket} {w : Worker} (ht : s.threads[i]? = some t)
      (hmsg : t.msg = some .newConnection) (hmq : t.mq = sk :: mq) (hw : t.worker.step (.create sk) = some w) :
      Moves s (.process i)
        (s.setThread i { t with worker := w, mq := mq, msg := none, created := t.created ++ [sk] })
  | ignores {i : ℕ} {t : WorkerThread} {m : Msg} (ht : s.threads[i]? = some t) (hmsg : t.msg = some m)
      (hm : m = .newConnection → t.mq = []) : Moves s (.process i) (s.setThread i { t with msg := none })
  | ends {i : ℕ} {t : WorkerThread} {w : Worker} (ht : s.threads[i]? = some t) (hmsg : t.msg = some .quit)
      (hw : t.worker.step .stop = some w) :
      Moves s (.process i) (s.setThread i { t with worker := w, msg := none, stopped := true })
  | works {i : ℕ} {t : WorkerThread} {e : WorkerEvent} {w : Worker} (ht : s.threads[i]? = some t)
      (hown : e.own = true) (hmsg : t.msg = none) (hw : t.worker.step e = some w) :
      Moves s (.worker i e) ((s.setThread i { t with worker := w }).shut (t.worker.shutFd e))

variable {s s' : System} {e : SystemEvent}

theorem onThread_some {i : ℕ} {f : WorkerThread → Option WorkerThread} :
    s.onThread i f = some s' ↔ ∃ t t', s.threads[i]? = some t ∧ f t = some t' ∧ s' = s.setThread i t' := by
  unfold System.onThread
  rw [Option.bind_eq_some_iff]
  constructor
  · rintro ⟨t, ht, h⟩
    obtain ⟨t', ht', h⟩ := Option.map_eq_some_iff.1 h
    exact ⟨t, t', ht, ht', h.symm⟩
  · rintro ⟨t, t', ht, ht', h⟩
    exact ⟨t, ht, Option.map_eq_some_iff.2 ⟨t', ht', h.symm⟩⟩

theorem notify_cases {t t' : WorkerThread} {m : Msg} {ok : Bool} (h : t.notify m ok = some t') :
    (ok = true ∧ t' = { t with pipe := t.pipe ++ [m] }) ∨ (ok = false ∧ t' = t) := by
  unfold WorkerThread.notify at h
  cases ok with
  | false => exact Or.inr ⟨rfl, (Option.some.inj h).symm⟩
  | true =>
    rw [if_pos rfl] at h
    split at h
    · cases h
    · exact Or.inl ⟨rfl, (Option.some.inj h).symm⟩

theorem process_moves (h : s.step (.process i) = some s') : Moves s (.process i) s' := by
  obtain ⟨t, t', ht, hstep, rfl⟩ := onThread_some.1 h
  obtain ⟨m, hmsg, hstep⟩ := Option.bind_eq_some_iff.1 hstep
  cases m with
  | quit =>
    obtain ⟨w, hw, rfl⟩ := Option.map_eq_some_iff.1 hstep
    exact .ends ht hmsg hw
  | newConnection =>
    cases hmq : t.mq with
    | nil =>
      have hmove := Moves.ignores ht hmsg fun _ => hmq
      simp only [WorkerThread.processInternalNotify, hmq, Option.some.injEq] at hstep
      rw [hmq] at hmove
      rw [← hstep]
      exact hmove
    | cons sk mq =>
      simp only [WorkerThread.processInternalNotify, hmq] at hstep
      obtain ⟨w, hw, rfl⟩ := Option.map_eq_some_iff.1 hstep
      exact .create ht hmsg hmq hw
  | other =>
    cases hstep
    exact .ignores ht hmsg fun h => by cases h

/-- **Every step is one of the moves.** -/
theorem step_moves (h : s.step e = some s') : Moves s e s' := by
  cases e with
  | accept fd =>
    simp only [System.step] at h
    split at h
    · rename_i hg
      rw [← Option.some.inj h]
      exact .accept hg.1 hg.2.1
    · cases h
  | push =>
    cases hphase : s.phase with
    | accepted sk =>
      simp only [System.step, hphase] at h
      obtain ⟨t, ht, rfl⟩ := Option.map_eq_some_iff.1 h
      exact .push hphase ht
    | _ => simp only [System.step, hphase] at h; cases h
  | notify ok =>
    cases hphase : s.phase with
    | pushed i sk =>
      simp only [System.step, hphase] at h
      obtain ⟨t, ht, h⟩ := Option.bind_eq_some_iff.1 h
      obtain ⟨t', hn, rfl⟩ := Option.map_eq_some_iff.1 h
      rcases notify_cases hn with ⟨rfl, rfl⟩ | ⟨rfl, rfl⟩
      · exact .notified hphase ht
      · exact .unnotified hphase ht
    | _ => simp only [System.step, hphase] at h; cases h
  | stop =>
    simp only [System.step] at h
    split at h
    · rename_i hphase
      rw [← Option.some.inj h]
      exact .winds (by rw [hphase]; exact ⟨rfl, rfl⟩) ⟨rfl, rfl⟩ (Or.inl rfl)
    · cases h
  | quit ok =>
    cases hphase : s.phase with
    | quitting i =>
      have hfree : s.phase.free := by rw [hphase]; exact ⟨rfl, rfl⟩
      simp only [System.step, hphase] at h
      obtain ⟨s₁, hs₁, rfl⟩ := Option.map_eq_some_iff.1 h
      obtain ⟨t, t', ht, hn, rfl⟩ := onThread_some.1 hs₁
      rcases notify_cases hn with ⟨rfl, rfl⟩ | ⟨rfl, rfl⟩
      · exact .posts ht (Or.inr ⟨hfree, ⟨rfl, rfl⟩⟩) (by decide) (Or.inr rfl)
      · -- a failed write leaves the thread as it is
        have hset : s.setThread i t' = s := by
          obtain ⟨hlt, hget⟩ := List.getElem?_eq_some_iff.1 ht
          unfold System.setThread
          rw [← hget, List.set_getElem_self]
        rw [hset]
        exact .winds hfree ⟨rfl, rfl⟩ (Or.inr (Or.inr rfl))
    | _ => simp only [System.step, hphase] at h; cases h
  | join =>
    cases hphase : s.phase with
    | joining i =>
      simp only [System.step, hphase] at h
      obtain ⟨t, ht, h⟩ := Option.bind_eq_some_iff.1 h
      split at h
      · rw [← Option.some.inj h]
        exact .winds (by rw [hphase]; exact ⟨rfl, rfl⟩) ⟨rfl, rfl⟩ (Or.inr (Or.inl rfl))
      · cases h
    | _ => simp only [System.step, hphase] at h; cases h
  | post i =>
    obtain ⟨t, t', ht, hn, rfl⟩ := onThread_some.1 h
    rcases notify_cases hn with ⟨-, rfl⟩ | ⟨hok, -⟩
    · exact .posts ht (Or.inl rfl) (by decide) (Or.inl rfl)
    · cases hok
  | recv i =>
    obtain ⟨t, t', ht, hr, rfl⟩ := onThread_some.1 h
    unfold WorkerThread.recvNotify at hr
    split at hr
    · rename_i hg
      cases hpipe : t.pipe with
      | nil => rw [hpipe] at hr; cases hr
      | cons m ms =>
        rw [hpipe] at hr
        rw [← Option.some.inj hr]
        exact .recv ht hg.1 hpipe
    · cases hr
  | process i => exact process_moves h
  | worker i e =>
    obtain ⟨t, ht, h⟩ := Option.bind_eq_some_iff.1 h
    split at h
    · rename_i hg
      obtain ⟨w, hw, rfl⟩ := Option.map_eq_some_iff.1 h
      exact .works ht hg.1 hg.2.1 hw
    · cases h

@[simp] theorem shut_threads (s : System) (fd : Option ℕ) : (s.shut fd).threads = s.threads := by cases fd <;> rfl

@[simp] theorem shut_phase (s : System) (fd : Option ℕ) : (s.shut fd).phase = s.phase := by cases fd <;> rfl

@[simp] theorem shut_sockets (s : System) (fd : Option ℕ) : (s.shut fd).sockets = s.sockets := by cases fd <;> rfl

theorem shut_fds (s : System) (fd : Option ℕ) :
    (s.shut fd).fds = match fd with | none => s.fds | some fd => s.fds.erase fd := by cases fd <;> rfl

/-- The open descriptors after a step. -/
theorem step_fds (h : s.step e = some s') :
    match e with
    | .accept fd => s'.fds = fd :: s.fds
    | .worker i e => ∀ t, s.threads[i]? = some t →
        s'.fds = match t.worker.shutFd e with | none => s.fds | some fd => s.fds.erase fd
    | _ => s'.fds = s.fds := by
  have hmove := step_moves h
  cases hmove with
  | winds hfree hfree' he => rcases he with rfl | rfl | rfl <;> rfl
  | posts ht hp hm he => rcases he with rfl | rfl <;> rfl
  | works ht hown hmsg hw =>
    intro t' ht'
    rw [ht, Option.some.injEq] at ht'
    rw [← ht', shut_fds]
    rfl
  | _ => rfl

end Spigeon
