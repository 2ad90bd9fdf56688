import Spigeon.Proof.Objects
import Spigeon.Proof.Removal
import Spigeon.Proof.System
import Spigeon.Spec.Network

/-!
# Entries of the socket table

As long as no connection is closed, no descriptor is closed either, and every socket on its
way to a worker or in a connection is the entry of its descriptor. The first connection
that is closed leaves such an entry behind.

* `NetworkOK`: the table and the sockets, as long as no connection was closed.
* `step_network_ok`: an event that closes no connection keeps it.
* `closes_dangles`: an event that closes a connection leaves an entry for a deleted socket.
* `table_entries_live_iff`: every entry is live in every state exactly if no connection is
  closed.
-/

namespace Spigeon

open Lifetime Lts

/-- No entry of the table points to a deleted socket. -/
def EntriesLive (n : Network) : Prop :=
  ∀ (fd : ℕ) (sk : Socket), n.sys.sockets[fd]? = some (some sk) → sk.id ∉ n.destroyed

/-- The sockets that the event deletes with their connections. -/
def Network.closes (n : Network) : NetworkEvent → List ℕ
  | .sys e => (n.step (.sys e)).elim [] fun n' => n.sys.freed n'.sys e
  | _ => []

/-- The socket is the entry of its descriptor, which is open. -/
structure Entered (s : System) (sk : Socket) : Prop where
  open_ : sk.fd ∈ s.fds
  entry : s.sockets[sk.fd]? = some (some sk)

/-- A worker thread that has closed no connection and whose sockets have the property. -/
structure ThreadOK (P : Socket → Prop) (t : WorkerThread) : Prop where
  queued : ∀ sk ∈ t.mq, P sk
  connected : ∀ (i : ℕ) (c : Conn), t.worker.objs[i]? = some c → P c.base.sock
  acts : ∀ id, Act.drop id ∉ t.worker.acts
  todo : ∀ k ∈ t.worker.todo, k.closeFd = none

/-- The sockets on their way to a connection and in one have the property. -/
structure SocketsOK (P : Socket → Prop) (s : System) : Prop where
  threads : ∀ (i : ℕ) (t : WorkerThread), s.threads[i]? = some t → ThreadOK P t
  held : ∀ sk, s.phase.held = some sk → P sk

/-- Numbers tell the sockets in the table from those that were deleted. -/
structure EntriesOK (n : Network) : Prop where
  made : ∀ (fd : ℕ) (sk : Socket), n.sys.sockets[fd]? = some (some sk) → sk.id < n.sys.made
  gone : ∀ id ∈ n.destroyed, id < n.sys.made
  live : EntriesLive n

structure NetworkOK (n : Network) : Prop where
  sockets : SocketsOK (Entered n.sys) n.sys
  entries : EntriesOK n

variable {n n' : Network} {e : NetworkEvent} {s s' : System} {t t' : WorkerThread} {P P' : Socket → Prop}
  {w w' : Worker}

theorem ThreadOK.mono (hPP : ∀ sk, P sk → P' sk) (h : ThreadOK P t) : ThreadOK P' t :=
  ⟨fun sk hsk => hPP sk (h.queued sk hsk), fun i c hc => hPP _ (h.connected i c hc), h.acts, h.todo⟩

/-! ## What a worker deletes -/

theorem freed_of_steady (h : Steady w w') : w.freed w' = [] := by
  obtain ⟨news, hacts, hno⟩ := h.acts
  unfold Worker.freed
  rw [hacts, List.drop_left, List.filterMap_eq_nil_iff]
  intro a ha
  cases a with
  | drop id => exact absurd ha (hno id)
  | use id => rfl
  | shut id => rfl

theorem freed_of_drops {id : ℕ} (h : Drops w w' id) :
    ∃ c, w'.objs[id]? = some c ∧ c.base.sock.id ∈ w.freed w' := by
  obtain ⟨⟨news, hacts, hdrop⟩, c, hobj⟩ := h
  refine ⟨c, hobj, ?_⟩
  unfold Worker.freed
  rw [hacts, List.drop_left, List.mem_filterMap]
  exact ⟨.drop id, hdrop, by simp only [hobj, Option.map_some]⟩

/-- The sockets of the connections after an event were there before, or it is a new one. -/
theorem step_socks {e : WorkerEvent} (h : w.step e = some w') {i : ℕ} {c' : Conn} (hobj : w'.objs[i]? = some c') :
    (∃ c, w.objs[i]? = some c ∧ c'.base.sock = c.base.sock) ∨ ∃ s, e = .create s ∧ c'.base.sock = s := by
  rcases step_edits h hobj with ⟨c, hc, hedit⟩ | ⟨s, he, -, rfl⟩
  · exact Or.inl ⟨c, hc, edits_sock hedit⟩
  · exact Or.inr ⟨s, he, start_sock s w.now w.sslOpen⟩

/-- An event that removes no connection. -/
theorem ThreadOK.works {e : WorkerEvent} (h : ThreadOK P t) (hst : t.worker.step e = some w')
    (hs : Steady t.worker w') (hnew : ∀ sk, e = .create sk → P sk) : ThreadOK P { t with worker := w' } := by
  refine ⟨h.queued, ?_, ?_, ?_⟩
  · intro i c' hobj
    rcases step_socks hst hobj with ⟨c, hc, hsock⟩ | ⟨sk, he, hsock⟩
    · rw [hsock]; exact h.connected i c hc
    · rw [hsock]; exact hnew sk he
  · intro id hid
    obtain ⟨news, hacts, hno⟩ := hs.acts
    rcases List.mem_append.1 (hacts ▸ hid) with hid | hid
    · exact h.acts id hid
    · exact hno id hid
  · intro k hk
    by_contra hclose
    exact hclose (h.todo k (hs.todo k hk hclose))

/-! ## Steps of the system -/

theorem SocketsOK.mono (h : SocketsOK P s) (hPP : ∀ sk, P sk → P' sk) : SocketsOK P' s :=
  ⟨fun i t ht => (h.threads i t ht).mono hPP, fun sk hsk => hPP sk (h.held sk hsk)⟩

theorem SocketsOK.congr (h : SocketsOK P s) (hthreads : s'.threads = s.threads)
    (hphase : ∀ sk, s'.phase.held = some sk → P sk) : SocketsOK P s' :=
  ⟨fun i t ht => h.threads i t (hthreads ▸ ht), hphase⟩

/-- One thread is replaced, and the dispatcher goes on without a socket or as it was. -/
theorem SocketsOK.set (h : SocketsOK P s) {i : ℕ} (hthreads : s'.threads = s.threads.set i t) (ht : ThreadOK P t)
    (hphase : s'.phase = s.phase ∨ s'.phase.held = none) : SocketsOK P s' := by
  refine ⟨?_, ?_⟩
  · intro j u hu
    rw [hthreads] at hu
    rcases List.set_cases hu with ⟨-, rfl⟩ | ⟨-, hu⟩
    · exact ht
    · exact h.threads j u hu
  · intro sk hsk
    rcases hphase with hp | hp
    · rw [hp] at hsk; exact h.held sk hsk
    · rw [hp] at hsk; cases hsk

/-- **A step of the system that closes no connection.** -/
theorem SocketsOK.step {e : SystemEvent} (h : SocketsOK P s) (hst : s.step e = some s')
    (hacc : Network.isAccept e = false) (hfreed : s.freed s' e = []) :
    SocketsOK P s' ∧ s'.fds = s.fds ∧ s'.sockets = s.sockets ∧ s'.made = s.made := by
  cases step_moves hst with
  | accept hphase hfd => cases hacc
  | @push sk t hphase ht =>
    have hok := h.threads _ t ht
    have hheld : P sk := h.held sk (by rw [hphase]; rfl)
    refine ⟨h.set rfl ⟨?_, hok.connected, hok.acts, hok.todo⟩ (Or.inr rfl), rfl, rfl, rfl⟩
    intro sk' hsk'
    rcases List.mem_append.1 hsk' with hsk' | hsk'
    · exact hok.queued sk' hsk'
    · rw [List.mem_singleton.1 hsk']; exact hheld
  | @notified i sk t hphase ht =>
    have hok := h.threads _ t ht
    exact ⟨h.set rfl ⟨hok.queued, hok.connected, hok.acts, hok.todo⟩ (Or.inr rfl), rfl, rfl, rfl⟩
  | @unnotified i sk t hphase ht =>
    have hok := h.threads _ t ht
    exact ⟨h.set rfl ⟨hok.queued, hok.connected, hok.acts, hok.todo⟩ (Or.inr rfl), rfl, rfl, rfl⟩
  | winds hfree hfree' he =>
    refine ⟨⟨h.threads, ?_⟩, rfl, rfl, rfl⟩
    intro sk hsk
    rw [hfree'.2] at hsk; cases hsk
  | @posts e p i t m ht hp hm he =>
    have hok := h.threads _ t ht
    refine ⟨h.set rfl ⟨hok.queued, hok.connected, hok.acts, hok.todo⟩ ?_, rfl, rfl, rfl⟩
    exact hp.imp id fun hfree => hfree.2.2
  | @recv i t m ms ht hmsg hpipe =>
    have hok := h.threads _ t ht
    exact ⟨h.set rfl ⟨hok.queued, hok.connected, hok.acts, hok.todo⟩ (Or.inl rfl), rfl, rfl, rfl⟩
  | @create i t sk mq w ht hmsg hmq hw =>
    have hok := h.threads _ t ht
    have hnew : P sk := hok.queued sk (by rw [hmq]; exact List.mem_cons_self)
    have hworks := hok.works hw (start_steady hw rfl) fun sk' he => by cases he; exact hnew
    refine ⟨h.set rfl ⟨?_, hworks.connected, hworks.acts, hworks.todo⟩ (Or.inl rfl), rfl, rfl, rfl⟩
    intro sk' hsk'
    exact hok.queued sk' (by rw [hmq]; exact List.mem_cons_of_mem _ hsk')
  | @ignores i t m ht hmsg hm =>
    have hok := h.threads _ t ht
    exact ⟨h.set rfl ⟨hok.queued, hok.connected, hok.acts, hok.todo⟩ (Or.inl rfl), rfl, rfl, rfl⟩
  | @ends i t w ht hmsg hw =>
    have hok := h.threads _ t ht
    have hworks := hok.works hw (start_steady hw rfl) fun sk he => by cases he
    exact ⟨h.set rfl ⟨hworks.queued, hworks.connected, hworks.acts, hworks.todo⟩ (Or.inl rfl), rfl, rfl, rfl⟩
  | @works i t we w ht hown hmsg hw =>
    have hok := h.threads _ t ht
    -- no `close(fd)` is left to do
    have hshut : t.worker.shutFd we = none := by
      unfold Worker.shutFd
      split
      · cases htodo : t.worker.todo with
        | nil => rfl
        | cons k ks => exact hok.todo k (by rw [htodo]; exact List.mem_cons_self)
      · rfl
    have hset : (s.setThread i { t with worker := w }).threads[i]? = some { t with worker := w } :=
      List.getElem?_set_self (List.getElem?_eq_some_iff.1 ht).1
    rw [hshut] at hfreed ⊢
    simp only [System.freed, ht, System.shut, hset] at hfreed
    -- a connection that is dropped would be among the freed ones
    have hs : Steady t.worker w := by
      rcases step_steady hw with hs | ⟨id, hd⟩
      · exact hs
      · obtain ⟨c, -, hmem⟩ := freed_of_drops hd
        rw [hfreed] at hmem; cases hmem
    have hcreate : ∀ sk, we = .create sk → P sk := fun sk he => by rw [he] at hown; cases hown
    exact ⟨h.set rfl (hok.works hw hs hcreate) (Or.inl rfl), rfl, rfl, rfl⟩

/-! ## Entering a socket -/

/-- A socket is entered for a descriptor that is not open. -/
theorem EntriesOK.enter (h : EntriesOK n) {fd : ℕ} {kind : SockKind}
    (hsockets : n'.sys.sockets = (roomFor n.sys.sockets fd).set fd (some ⟨n.sys.made, kind, fd⟩))
    (hmade : n'.sys.made = n.sys.made + 1) (hgone : n'.destroyed = n.destroyed) : EntriesOK n' := by
  refine ⟨?_, ?_, ?_⟩
  · intro f sk hsk
    rw [hsockets] at hsk
    rw [hmade]
    rcases roomFor_set hsk with ⟨-, rfl⟩ | ⟨-, hold⟩
    · exact Nat.lt_succ_self _
    · exact Nat.lt_succ_of_lt (h.made f sk hold)
  · intro id hid
    rw [hgone] at hid
    rw [hmade]
    exact Nat.lt_succ_of_lt (h.gone id hid)
  · intro f sk hsk
    rw [hsockets] at hsk
    rw [hgone]
    rcases roomFor_set hsk with ⟨-, rfl⟩ | ⟨-, hold⟩
    · -- its number is new
      exact fun hid => lt_irrefl _ (h.gone _ hid)
    · exact h.live f sk hold

theorem Entered.enter {sk sk' : Socket} {fd : ℕ} (h : Entered s sk) (hfree : fd ∉ s.fds)
    (hsockets : s'.sockets = (roomFor s.sockets fd).set fd (some sk')) (hfds : ∀ f ∈ s.fds, f ∈ s'.fds) :
    Entered s' sk := by
  have hne : fd ≠ sk.fd := fun he => hfree (he ▸ h.open_)
  refine ⟨hfds _ h.open_, ?_⟩
  rw [hsockets, List.getElem?_set, if_neg hne]
  exact roomFor_getElem?.2 h.entry

/-- `create_server`. -/
theorem createServer_ok (h : NetworkOK n) (kind : SockKind) {fd : Option ℕ} (hfree : ∀ f ∈ fd, n.free f) :
    NetworkOK (n.createServer kind fd) := by
  cases fd with
  | none =>
    have hent : ∀ sk, Entered n.sys sk → Entered (n.createServer kind none).sys sk :=
      fun sk hsk => ⟨hsk.open_, hsk.entry⟩
    have hmade : ∀ {id}, id < n.sys.made → id < n.sys.made + 1 := fun hid => Nat.lt_succ_of_lt hid
    refine ⟨(h.sockets.mono hent).congr rfl fun sk hsk => hent sk (h.sockets.held sk hsk),
      fun f sk hsk => hmade (h.entries.made f sk hsk), ?_, ?_⟩
    · intro id hid
      rcases List.mem_append.1 hid with hid | hid
      · exact hmade (h.entries.gone id hid)
      · rw [List.mem_singleton.1 hid]; exact Nat.lt_succ_self _
    · intro f sk hsk hid
      rcases List.mem_append.1 hid with hid | hid
      · exact h.entries.live f sk hsk hid
      · exact absurd (List.mem_singleton.1 hid) (ne_of_lt (h.entries.made f sk hsk))
  | some fd =>
    have hent : ∀ sk, Entered n.sys sk → Entered (n.createServer kind (some fd)).sys sk := fun sk hsk =>
      hsk.enter (hfree fd rfl).1 rfl fun f hf => hf
    exact ⟨(h.sockets.mono hent).congr rfl fun sk hsk => hent sk (h.sockets.held sk hsk),
      h.entries.enter rfl rfl rfl⟩

/-- `generic_accept`; the table is not empty, since it holds the listening socket. -/
theorem genericAccept_ok (h : NetworkOK n) (kind : SockKind) {fd : ℕ} (hfree : n.free fd)
    (hne : 0 < n.sys.sockets.length) :
    NetworkOK { n with sys := ({ n.sys with serverType := kind } : System).genericAccept fd } := by
  have hent : ∀ sk, Entered n.sys sk →
      Entered (({ n.sys with serverType := kind } : System).genericAccept fd) sk :=
    fun sk hsk => hsk.enter hfree.1 rfl fun f hf => List.mem_cons_of_mem _ hf
  have hnew : Entered (({ n.sys with serverType := kind } : System).genericAccept fd) ⟨n.sys.made, kind, fd⟩ :=
    ⟨List.mem_cons_self, List.getElem?_set_self (roomFor_length hne fd).1⟩
  refine ⟨(h.sockets.mono hent).congr rfl ?_, h.entries.enter rfl rfl rfl⟩
  intro sk hsk
  cases hsk
  exact hnew

/-! ## Runs -/

theorem network_sys_step {e : SystemEvent} (hst : n.step (.sys e) = some n') :
    Network.isAccept e = false ∧ n.sys.step e = some n'.sys ∧ n'.destroyed = n.destroyed ++ n.sys.freed n'.sys e ∧
      n.closes (.sys e) = n.sys.freed n'.sys e := by
  have hcl : n.closes (.sys e) = n.sys.freed n'.sys e := by
    simp only [Network.closes, hst, Option.elim_some]
  simp only [Network.step] at hst
  split at hst
  · cases hst
  · rename_i hacc
    obtain ⟨s, hs, rfl⟩ := Option.map_eq_some_iff.1 hst
    exact ⟨by simpa using hacc, hs, rfl, hcl⟩

/-- **An event that closes no connection.** -/
theorem step_network_ok (h : NetworkOK n) (hst : n.step e = some n') (hno : n.closes e = []) : NetworkOK n' := by
  cases e with
  | createServer kind fd =>
    simp only [Network.step] at hst
    split at hst
    · rename_i hg
      cases hst
      exact createServer_ok h kind hg.2
    · cases hst
  | accept listenFd fd =>
    simp only [Network.step] at hst
    obtain ⟨sk, hsk, hst⟩ := Option.bind_eq_some_iff.1 hst
    split at hst
    · rename_i hg
      cases hst
      cases fd with
      | none => exact h
      | some fd =>
        obtain ⟨p, hp, rfl⟩ := Option.bind_eq_some_iff.1 hsk
        have hlt := (List.getElem?_eq_some_iff.1 hp).1
        exact genericAccept_ok h sk.kind (hg.2.2 fd rfl) (by omega)
    · cases hst
  | sys e =>
    obtain ⟨hacc, hs, hgone, hcl⟩ := network_sys_step hst
    rw [← hcl, hno, List.append_nil] at hgone
    obtain ⟨hsockets, hfds, htable, hmade⟩ := h.sockets.step hs hacc (hcl.symm.trans hno)
    have hent : ∀ sk, Entered n.sys sk → Entered n'.sys sk := fun sk hsk =>
      ⟨hfds ▸ hsk.open_, htable ▸ hsk.entry⟩
    refine ⟨hsockets.mono hent, ?_, ?_, ?_⟩
    · rw [htable, hmade]; exact h.entries.made
    · rw [hgone, hmade]; exact h.entries.gone
    · unfold EntriesLive
      rw [htable, hgone]; exact h.entries.live

/-- A worker that removes a connection deletes a socket that is in the table. -/
theorem works_dangles {i : ℕ} {we : WorkerEvent} (h : SocketsOK (Entered s) s)
    (hst : s.step (.worker i we) = some s') (hfreed : s.freed s' (.worker i we) ≠ []) :
    ∃ sk : Socket, s'.sockets[sk.fd]? = some (some sk) ∧ sk.id ∈ s.freed s' (.worker i we) := by
  cases step_moves hst with
  | winds hfree hfree' he => rcases he with he | he | he <;> cases he
  | posts ht hp hm he => rcases he with he | he <;> cases he
  | @works _ t _ w ht hown hmsg hw =>
    have hok := h.threads _ t ht
    have hthread : ((s.setThread i { t with worker := w }).shut (t.worker.shutFd we)).threads[i]? =
        some { t with worker := w } := by
      rw [shut_threads]
      exact List.getElem?_set_self (List.getElem?_eq_some_iff.1 ht).1
    simp only [System.freed, ht, hthread] at hfreed ⊢
    rcases step_steady hw with hs | ⟨id, hd⟩
    · exact absurd (freed_of_steady hs) hfreed
    · obtain ⟨c, hobj, hmem⟩ := freed_of_drops hd
      refine ⟨c.base.sock, ?_, hmem⟩
      have hent : Entered s c.base.sock := by
        rcases step_socks hw hobj with ⟨c₀, hc₀, hsock⟩ | ⟨sk, he, -⟩
        · rw [hsock]; exact hok.connected id c₀ hc₀
        · rw [he] at hown; cases hown
      rw [shut_sockets]
      exact hent.entry

/-- **An event that closes a connection leaves its entry in the table.** -/
theorem closes_dangles (h : NetworkOK n) (hst : n.step e = some n') (hcl : n.closes e ≠ []) :
    ¬ EntriesLive n' := by
  intro hlive
  cases e with
  | createServer kind fd => exact hcl rfl
  | accept listenFd fd => exact hcl rfl
  | sys e =>
    obtain ⟨hacc, hs, hgone, hcl'⟩ := network_sys_step hst
    rw [hcl'] at hcl
    cases e with
    | worker i we =>
      obtain ⟨sk, hentry, hmem⟩ := works_dangles h.sockets hs hcl
      refine hlive sk.fd sk hentry ?_
      rw [hgone]
      exact List.mem_append_right _ hmem
    | _ => exact hcl rfl

theorem init_network_ok (workerNum timeout : ℕ) (ssl : Bool) (now : ℕ) :
    NetworkOK (Network.init workerNum timeout ssl now) := by
  refine ⟨⟨?_, ?_⟩, ?_, ?_, ?_⟩
  · intro i t ht
    have hmem := List.mem_of_getElem? ht
    rw [List.eq_of_mem_replicate hmem]
    refine ⟨?_, ?_, ?_, ?_⟩
    · intro sk hsk; cases hsk
    · intro j c hobj; cases hobj
    · intro id hid; cases hid
    · intro k hk; cases hk
  · intro sk hsk; cases hsk
  · intro fd sk hsk; cases hsk
  · intro id hid; cases hid
  · intro fd sk hsk; cases hsk

/-- **The socket table.** In a run of `create_server`, `generic_accept`, `create_connection` and
the callbacks of the workers, every entry of `_sockets` is empty or a socket that exists, in
every state, exactly if no connection is closed. -/
theorem table_entries_live_iff (workerNum timeout : ℕ) (ssl : Bool) (now : ℕ) (es : List NetworkEvent) :
    Always Network.step EntriesLive (Network.init workerNum timeout ssl now) es ↔
      Along Network.step (fun n e => n.closes e = []) (Network.init workerNum timeout ssl now) es := by
  have hinit := init_network_ok workerNum timeout ssl now
  constructor
  · -- up to the first closing the invariant holds, and the state after it has a bad entry
    refine along_of_always_kept (R := fun _ _ => True) ?_ ?_ hinit (along_of_forall fun _ _ => trivial)
    · intro n e n' h _ hst hlive
      refine step_network_ok h hst ?_
      by_contra hcl
      exact closes_dangles h hst hcl hlive
    · intro n e h _ _ hnext
      by_contra hcl
      cases hst : n.step e with
      | some n' => exact closes_dangles h hst hcl (hnext n' hst)
      | none =>
        cases e with
        | sys e => exact hcl (by simp only [Network.closes, hst, Option.elim_none])
        | _ => exact hcl rfl
  · intro hno
    refine (always_along ?_ hinit hno).mono fun n h => h.entries.live
    intro n e n' h hcl hst
    exact step_network_ok h hst hcl

/-- One client connects and leaves: the entry of its descriptor is a deleted socket, and the
test of `write_io` for that descriptor passes. -/
theorem closed_client_dangles :
    ∃ n sk, run Network.step (Network.init 1 60 false 0)
        [.createServer .tcp (some 5), .accept 5 (some 7), .sys .push, .sys (.notify true), .sys (.recv 0),
          .sys (.process 0), .sys (.worker 0 (.io 0 true false ⟨fun _ => 0, .eof, .again, .leave [] 0⟩ [])),
          .sys (.worker 0 .next)] = some n ∧
      n.sys.sockets[7]? = some (some sk) ∧ sk.id ∈ n.destroyed := by
  have hmap : (run Network.step (Network.init 1 60 false 0)
      [.createServer .tcp (some 5), .accept 5 (some 7), .sys .push, .sys (.notify true), .sys (.recv 0),
        .sys (.process 0), .sys (.worker 0 (.io 0 true false ⟨fun _ => 0, .eof, .again, .leave [] 0⟩ [])),
        .sys (.worker 0 .next)]).map (fun n => (n.sys.sockets[7]?, n.destroyed)) =
      some (some (some ⟨1, .tcp, 7⟩), [1]) := by decide +kernel
  obtain ⟨n, hrun, hv⟩ := Option.map_eq_some_iff.1 hmap
  simp only [Prod.mk.injEq] at hv
  exact ⟨n, _, hrun, hv.1, by rw [hv.2]; exact List.mem_singleton_self _⟩

end Spigeon
