import Spigeon.Lib.RoundRobin
import Spigeon.Proof.Server
import Spigeon.Proof.System

/-!
# The dispatcher serves its workers in turn

`dispatch_new_conn` indexes `_workers` and divides by its size without a test. The size is what the
loop in `initialize` has made of the option `worker_num`, which `validate_conf` does not look
at.

* `workers_spawned`: an `initialize` that succeeds has made `worker_num` workers, none if it is
  negative.
* `step_turns`: every step of the system keeps the turns of the workers.
* `dispatch_balanced_iff`: along every run the index is valid and the workers are served evenly,
  exactly if `worker_num` is positive.
-/

namespace Spigeon

open Lts RoundRobin

/-! ## The workers that `initialize` makes -/

/-- The size of `_workers`. -/
def Server.spawned (s : Server) : Option ℕ := s.dispatcher.map fun d => d.workers.length

/-- What is known of this size in each phase. -/
def SpawnOK (workerNum ret : ℤ) (spawned : Option ℕ) : ServerPhase → Prop
  | .idle | .loop | .notify _ | .join _ => ret = SERVER_OK → ∀ n ∈ spawned, n = workerNum.toNat
  | .pipe | .server => ∀ n ∈ spawned, n = 0
  | .spawn i => ∀ n ∈ spawned, n = i ∧ i ≤ workerNum.toNat
  | .thread i _ | .bind i _ => ∀ n ∈ spawned, n = i ∧ i < workerNum.toNat
  | .gone => True

variable {v v' : Server} {d : Dispatcher} {ev : ServerEvent}

theorem spawned_eq (hd : v.dispatcher = some d) : v.spawned = some d.workers.length := by
  unfold Server.spawned
  rw [hd]
  rfl

/-- The end of a call of `join_workers`. -/
theorem joinWorkers_spawn {workerNum : ℤ} (h : v.ret = SERVER_OK → d.workers.length = workerNum.toNat)
    (hd : v.dispatcher = some d) (rest : List ℕ) :
    SpawnOK workerNum (v.joinWorkers d rest).ret (v.joinWorkers d rest).spawned (v.joinWorkers d rest).phase := by
  cases rest with
  | nil =>
    rintro hret n ⟨⟩
    exact h hret
  | cons id rest =>
    intro hret n hn
    rw [spawned_eq (v := v.joinWorkers d (id :: rest)) hd] at hn
    cases hn
    exact h hret

theorem step_spawn (h : SpawnOK v.options.workerNum v.ret v.spawned v.phase) (hst : v.step ev = some v') :
    v'.options = v.options ∧ SpawnOK v.options.workerNum v'.ret v'.spawned v'.phase := by
  have hmove := server_moves hst
  cases hmove with
  | init hp =>
    refine ⟨rfl, ?_⟩
    rintro n ⟨⟩
    rfl
  | fails he =>
    refine ⟨rfl, ?_⟩
    intro hret
    cases hret
  | pipe hp hd =>
    rw [hp, spawned_eq hd] at h
    refine ⟨rfl, ?_⟩
    rintro n ⟨⟩
    exact h _ rfl
  | server hp hd =>
    rw [hp, spawned_eq hd] at h
    refine ⟨rfl, ?_⟩
    rintro n ⟨⟩
    exact ⟨h _ rfl, Nat.zero_le _⟩
  | @spawn d i piped hp hd =>
    rw [hp, spawned_eq hd] at h
    obtain ⟨hlen, hle⟩ := h _ rfl
    unfold Server.spawnWorker
    split_ifs with hmore hfactory
    · refine ⟨rfl, ?_⟩
      intro hret
      cases hret
    · refine ⟨rfl, ?_⟩
      intro n hn
      cases hn
      exact ⟨hlen, by omega⟩
    · -- the loop of `initialize` is over
      refine ⟨rfl, ?_⟩
      intro _ n hn
      rw [spawned_eq (v := v.returns SERVER_OK) hd] at hn
      cases hn
      omega
  | thread hp =>
    rw [hp] at h
    exact ⟨rfl, h⟩
  | @bind d i id w affinity hp hd hw =>
    rw [hp, spawned_eq hd] at h
    obtain ⟨hlen, hlt⟩ := h _ rfl
    unfold Server.bindWorker
    split_ifs with hfails
    · refine ⟨rfl, ?_⟩
      intro hret
      cases hret
    · refine ⟨rfl, ?_⟩
      intro n hn
      cases hn
      have hone : (d.workers ++ [id]).length = i + 1 := by rw [List.length_append, List.length_singleton, hlen]
      exact ⟨hone, hlt⟩
  | run hp =>
    rw [hp] at h
    exact ⟨rfl, h⟩
  | stop hd =>
    rw [spawned_eq hd] at h
    exact ⟨rfl, h⟩
  | nothing he => exact ⟨rfl, h⟩
  | @quit d hp hd hw =>
    rw [hp, spawned_eq hd] at h
    constructor
    · cases d.workers <;> rfl
    · apply joinWorkers_spawn
      · intro hret
        exact h hret _ rfl
      · rfl
  | notify hp =>
    rw [hp] at h
    exact ⟨rfl, h⟩
  | @join d id rest hp hd hfin =>
    rw [hp, spawned_eq hd] at h
    constructor
    · cases rest <;> rfl
    · apply joinWorkers_spawn
      · intro hret
        exact h hret _ rfl
      · exact hd
  | joinFails hp =>
    rw [hp] at h
    exact ⟨rfl, h⟩
  | finish hrun => exact ⟨rfl, h⟩
  | destroy hp =>
    refine ⟨?_, trivial⟩
    have hdel : ((v.dispatcher.elim [] Dispatcher.workers).foldl Server.delete v).options = v.options := by
      rw [foldl_delete]
    exact hdel

/-- **An `initialize` that succeeds has made as many workers as the option says.** -/
theorem workers_spawned {o : GenericServerOptions} {es : List ServerEvent}
    (hrun : run Server.step (Server.init o) es = some v) (hidle : v.phase = .idle) (hret : v.ret = SERVER_OK)
    (hd : v.dispatcher = some d) :
    d.workers.length = o.workerNum.toNat := by
  have hspawn : v.options = o ∧ SpawnOK o.workerNum v.ret v.spawned v.phase := by
    refine run_inv_along (I := fun v => v.options = o ∧ SpawnOK o.workerNum v.ret v.spawned v.phase)
      (P := fun _ _ => True) ?_ ?_ (along_of_forall fun _ _ => trivial) hrun
    · rintro u e u' ⟨rfl, hu⟩ _ hst
      exact step_spawn hu hst
    · refine ⟨rfl, ?_⟩
      intro _ n hn
      cases hn
  have hok := hspawn.2
  rw [hidle, spawned_eq hd] at hok
  exact hok hret _ rfl

/-! ## The turns of the workers -/

/-- The system that the dispatcher runs after `initialize`. -/
def Dispatcher.system (d : Dispatcher) (o : GenericServerOptions) (kind : SockKind) (listenFd now : ℕ) : System :=
  System.init kind listenFd d.workers.length o.connectionTimeout (decide (o.sslOpen ≠ 0)) now

/-- The numbers of sockets pushed to the workers. -/
def System.pushed (s : System) : List ℕ := s.threads.map fun t => t.dispatched.length

def SystemEvent.isPush : SystemEvent → Bool
  | .push => true
  | _ => false

/-- `dispatch_new_conn` finds a worker at `_next_worker`, and does not divide by zero. -/
def DispatchInRange (s : System) (e : SystemEvent) : Prop := e.isPush = true → s.nextWorker < s.threads.length

/-- No worker has got more than one socket more than another. -/
def Evenly (s : System) : Prop := ∀ m ∈ s.pushed, ∀ n ∈ s.pushed, m ≤ n + 1

instance (s : System) (e : SystemEvent) : Decidable (DispatchInRange s e) := inferInstanceAs (Decidable (_ → _))

instance (s : System) : Decidable (Evenly s) := inferInstanceAs (Decidable (∀ _ ∈ _, ∀ _ ∈ _, _ ≤ _))

variable {s s' : System} {e : SystemEvent}

theorem pushed_length (s : System) : s.pushed.length = s.threads.length := List.length_map _

/-- **Every step keeps the turns of the workers.** -/
theorem step_turns (h : Turns s.pushed s.nextWorker) (hst : s.step e = some s') :
    Turns s'.pushed s'.nextWorker := by
  -- a step at one worker that pushes nothing
  have hsame : ∀ {i : ℕ} {t t' : WorkerThread}, s.threads[i]? = some t → t'.dispatched = t.dispatched →
      (s.threads.set i t').map (fun t => t.dispatched.length) = s.pushed := by
    intro i t t' ht hdisp
    exact List.map_set_of_eq ht (congrArg List.length hdisp)
  have hkept : s'.pushed = s.pushed → s'.nextWorker = s.nextWorker → Turns s'.pushed s'.nextWorker := by
    intro hp hn
    rw [hp, hn]
    exact h
  cases step_moves hst with
  | push hphase ht =>
    rename_i sk t
    have hget : s.pushed[s.nextWorker]? = some t.dispatched.length := by
      unfold System.pushed
      rw [List.getElem?_map, ht]
      rfl
    have hserve := h.serve hget
    rw [pushed_length] at hserve
    have hpushed : (s.mqPush sk t).pushed = s.pushed.set s.nextWorker (t.dispatched.length + 1) := by
      unfold System.pushed System.mqPush System.setThread
      rw [List.map_set, List.length_append, List.length_singleton]
    rw [hpushed]
    exact hserve
  | accept hphase hfd => exact hkept rfl rfl
  | notified hphase ht => exact hkept (hsame ht rfl) rfl
  | unnotified hphase ht => exact hkept (hsame ht rfl) rfl
  | winds hfree hfree' he => exact hkept rfl rfl
  | posts ht hp hm he => exact hkept (hsame ht rfl) rfl
  | recv ht hmsg hpipe => exact hkept (hsame ht rfl) rfl
  | create ht hmsg hmq hw => exact hkept (hsame ht rfl) rfl
  | ignores ht hmsg hm => exact hkept (hsame ht rfl) rfl
  | ends ht hmsg hw => exact hkept (hsame ht rfl) rfl
  | @works i t e w ht hown hmsg hw =>
    refine hkept ?_ ?_
    · unfold System.pushed
      rw [shut_threads]
      exact hsame ht rfl
    · cases t.worker.shutFd e <;> rfl

theorem system_turns (hd : 0 < d.workers.length) (o : GenericServerOptions) (kind : SockKind) (listenFd now : ℕ) :
    Turns (d.system o kind listenFd now).pushed (d.system o kind listenFd now).nextWorker := by
  refine turns_zero ?_ ?_
  · rw [pushed_length]
    exact lt_of_lt_of_eq hd List.length_replicate.symm
  · intro n hn
    obtain ⟨t, ht, rfl⟩ := List.mem_map.mp hn
    rw [List.eq_of_mem_replicate ht]
    rfl

/-- **Dispatching is in range and even exactly if `worker_num` is positive.** The options are any
with which `initialize` succeeds, and the run is any run of the dispatcher and its workers
afterwards, with any results of the notifications. -/
theorem dispatch_balanced_iff (o : GenericServerOptions) {es : List ServerEvent}
    (hrun : run Server.step (Server.init o) es = some v) (hidle : v.phase = .idle) (hret : v.ret = SERVER_OK)
    (hd : v.dispatcher = some d) (kind : SockKind) (listenFd now : ℕ) :
    (∀ events, Along System.step DispatchInRange (d.system o kind listenFd now) events ∧
      Always System.step Evenly (d.system o kind listenFd now) events) ↔ 1 ≤ o.workerNum := by
  have hlen : d.workers.length = o.workerNum.toNat := workers_spawned hrun hidle hret hd
  constructor
  · intro h
    by_contra hnum
    have hnone : (d.system o kind listenFd now).threads = [] := by
      have hzero : d.workers.length = 0 := by omega
      unfold Dispatcher.system System.init
      rw [hzero]
      rfl
    -- the first socket has nowhere to go
    have hrange := (h [.push]).1.1 rfl
    rw [hnone] at hrange
    exact absurd hrange (Nat.not_lt_zero _)
  · intro hnum events
    have hpos : 0 < d.workers.length := by omega
    have hturns := system_turns hpos o kind listenFd now
    constructor
    · refine Along.mono_inv (I := fun s => Turns s.pushed s.nextWorker) (P := fun _ _ => True) ?_ ?_ hturns
        (along_of_forall fun _ _ => trivial)
      · intro s e s' hs _ hst
        exact step_turns hs hst
      · intro s e hs _ _
        have hlt := hs.next_lt
        rwa [pushed_length] at hlt
    · have hall : Always System.step (fun s => Turns s.pushed s.nextWorker)
          (d.system o kind listenFd now) events := by
        refine always ?_ hturns
        intro s e s' hs hst
        exact step_turns hs hst
      refine hall.mono ?_
      intro s hs m hm n hn
      exact hs.balanced hm hn

def twoWorkers : GenericServerOptions :=
  { GenericServerOptions.new with workerNum := 2, workerFactory := true, bindCpu := false }

/-- The calls of an `initialize` that makes two workers. -/
def initializesTwo : List ServerEvent :=
  [.init, .pipe true, .server true, .spawn true, .thread true, .bind true, .spawn true, .thread true, .bind true,
    .spawn true]

/-- Three clients for two workers; the second notification fails. -/
def threeClients : List SystemEvent :=
  [.accept 7, .push, .notify true, .accept 8, .push, .notify false, .accept 9, .push, .notify true]

theorem two_workers_balanced :
    ∃ v d s, run Server.step (Server.init twoWorkers) initializesTwo = some v ∧ v.dispatcher = some d ∧
      run System.step (d.system twoWorkers .tcp 3 0) threeClients = some s ∧ s.pushed = [2, 1] ∧ Evenly s := by
  have hall := (dispatch_balanced_iff twoWorkers
    (show run Server.step (Server.init twoWorkers) initializesTwo = some _ from rfl) rfl rfl rfl .tcp 3 0).mpr
    (by decide)
  exact ⟨_, _, _, rfl, rfl, rfl, rfl, (hall threeClients).2.last rfl⟩

def noWorkers : GenericServerOptions := { GenericServerOptions.new with workerNum := 0, workerFactory := true }

/-- With `worker_num` 0 the server starts, and the first client it accepts has no worker. -/
theorem no_workers_out_of_range :
    ∃ v d s, run Server.step (Server.init noWorkers) [.init, .pipe true, .server true, .spawn true] = some v ∧
      v.phase = .idle ∧ v.ret = SERVER_OK ∧ v.dispatcher = some d ∧
      run System.step (d.system noWorkers .tcp 3 0) [.accept 7] = some s ∧ ¬ DispatchInRange s .push := by
  refine ⟨_, _, _, rfl, rfl, rfl, rfl, rfl, ?_⟩
  decide

end Spigeon
