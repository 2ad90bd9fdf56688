import Spigeon.Proof.Bounds
import Spigeon.Spec.Network

/-!
# Servers and UDP clients, all or nothing

`create_server` and `UDPSocket::accept` make several system calls one after the other. What is
left when one of them fails depends on which, because the results of `listen`, `recvfrom` and
`connect` are not used.

* `createBind_cases`: `create_bind` opens and binds a socket, or leaves the kernel as it was.
* `create_server_iff`: the outcomes with which `create_server` gives a server or changes nothing.
* `udp_accept_iff`: the outcomes with which `UDPSocket::accept` gives a client or changes nothing.
-/

namespace Spigeon

variable {k : Kernel} {addr : Ipv4Address}

/-- `create_bind` does not return a socket. -/
def BindCalls.Fail (c : BindCalls k) : Prop := ∀ fd, c.socket = some fd → c.bind = false

/-- **`create_bind` is all or nothing.** A descriptor that could not be bound is closed again. -/
theorem createBind_cases (addr : Ipv4Address) (c : BindCalls k) :
    (c.Fail ∧ createBind k addr c = (k, none)) ∨
      ∃ fd, c.socket = some fd ∧ c.bind = true ∧
        createBind k addr c = (Function.update k fd (some ⟨some addr, false, none⟩), some fd) := by
  unfold createBind
  cases hsock : c.socket with
  | none =>
    refine Or.inl ⟨?_, rfl⟩
    intro fd hfd
    rw [hsock] at hfd
    cases hfd
  | some fd =>
    have hfresh : k fd = none := c.fresh fd hsock
    cases hbind : c.bind with
    | false =>
      have hclosed : (k.socket fd).close fd = k := by
        unfold Kernel.socket Kernel.close
        rw [Function.update_idem, ← hfresh, Function.update_eq_self]
      refine Or.inl ⟨fun _ _ => hbind, ?_⟩
      dsimp only
      rw [if_neg Bool.false_ne_true, hclosed]
    | true =>
      refine Or.inr ⟨fd, rfl, rfl, ?_⟩
      have hopened : (k.socket fd).bind fd addr = Function.update k fd (some ⟨some addr, false, none⟩) := by
        unfold Kernel.socket Kernel.bind
        rw [Function.update_self, Function.update_idem]
        rfl
      dsimp only
      rw [if_pos rfl, hopened]

/-! ## Servers -/

theorem Kernel.listen_update (k : Kernel) (fd : ℕ) (s : KernelSocket) :
    Kernel.listen (Function.update k fd (some s)) fd =
      Function.update k fd (some { s with listening := true }) := by
  unfold Kernel.listen
  rw [Function.update_self, Function.update_idem]
  rfl

theorem Kernel.close_update (k : Kernel) (fd : ℕ) (s : Option KernelSocket) :
    Kernel.close (Function.update k fd s) fd = Function.update k fd none := by
  unfold Kernel.close
  rw [Function.update_idem]

/-- A socket that is open, bound, listening if it is one for TCP, and stored; or nothing new. -/
def ServerMade (m : NetworkManager) (k : Kernel) (addr : Ipv4Address) :
    NetworkManager × Kernel × Option Socket → Prop
  | (m', k', some s) =>
    k' s.fd = some ⟨some addr, decide (s.kind = .tcp), none⟩ ∧ (∀ fd, fd ≠ s.fd → k' fd = k fd) ∧
      m'.sockets[s.fd]? = some (some s) ∧ m'.listenFd = some s.fd
  | (m', k', none) => m'.sockets = m.sockets ∧ m'.listenFd = m.listenFd ∧ k' = k

/-- The types that `create_server` knows. -/
def KnownType (serverType : ℤ) : Prop := serverType % 256 = G_SERVER_TCP ∨ serverType % 256 = G_SERVER_UDP

variable {m : NetworkManager}

theorem enterServer_eq (m : NetworkManager) (kind : SockKind) (fd : ℕ) :
    m.enterServer kind fd = if fd ≠ 0 ∨ m.sockets ≠ [] then
      some (
        { sockets := (roomFor m.sockets fd).set fd (some ⟨m.made, kind, fd⟩)
          listenFd := some fd
          made := m.made + 1 },
        ⟨m.made, kind, fd⟩)
      else none := by
  unfold NetworkManager.enterServer
  rw [enter_eq]
  split <;> rfl

/-- The end of `create_server`, with the kernel as the calls before have left it. -/
theorem enterServer_made_iff {kind : SockKind} {fd : ℕ} {k' : Kernel} (hother : ∀ f, f ≠ fd → k' f = k f) :
    (∃ r, ((m.enterServer kind fd).map fun r => (r.1, k', some r.2)) = some r ∧ ServerMade m k addr r) ↔
      k' fd = some ⟨some addr, decide (kind = .tcp), none⟩ ∧ (fd ≠ 0 ∨ m.sockets ≠ []) := by
  rw [enterServer_eq]
  by_cases hroom : fd ≠ 0 ∨ m.sockets ≠ []
  · rw [if_pos hroom]
    constructor
    · rintro ⟨r, ⟨⟩, hmade⟩
      exact ⟨hmade.1, hroom⟩
    · rintro ⟨hfd, -⟩
      exact ⟨_, rfl, hfd, hother, List.getElem?_set_self (lt_roomFor_iff.mpr hroom), rfl⟩
  · rw [if_neg hroom]
    constructor
    · rintro ⟨r, ⟨⟩, -⟩
    · rintro ⟨-, hroom'⟩
      exact absurd hroom' hroom

/-- What the outcomes of the calls have to be once the type is known. -/
def ServerCallsFit (m : NetworkManager) (serverType : ℤ) (c : ServerCalls k) : Prop :=
  ∀ fd, c.socket = some fd → c.bind = true →
    (serverType % 256 = G_SERVER_TCP → c.listen = true) ∧ (fd ≠ 0 ∨ m.sockets ≠ [])

theorem serverCallsFit_of_fail {serverType : ℤ} {c : ServerCalls k} (h : c.toBindCalls.Fail) :
    ServerCallsFit m serverType c := by
  intro fd hsock hbind
  rw [h fd hsock] at hbind
  cases hbind

theorem serverCallsFit_iff {serverType : ℤ} {c : ServerCalls k} {fd : ℕ} (hsock : c.socket = some fd)
    (hbind : c.bind = true) :
    ServerCallsFit m serverType c ↔
      (serverType % 256 = G_SERVER_TCP → c.listen = true) ∧ (fd ≠ 0 ∨ m.sockets ≠ []) := by
  constructor
  · intro h
    exact h fd hsock hbind
  · intro h f hf _
    rw [hsock] at hf
    cases hf
    exact h

/-- **Creating a server is all or nothing** exactly if the type is one of the two that exist and,
once a socket is bound, `listen` succeeds for TCP and the table has room for the descriptor. For
any type in the options, any address and any outcomes of the system calls. -/
theorem create_server_iff (m : NetworkManager) (k : Kernel) (serverType : ℤ) (addr : Ipv4Address)
    (c : ServerCalls k) :
    (∃ r, m.createServer k serverType addr c = some r ∧ ServerMade m k addr r) ↔
      KnownType serverType ∧ ServerCallsFit m serverType c := by
  unfold NetworkManager.createServer KnownType
  dsimp only
  -- only the descriptor of the new socket changes
  have hother : ∀ {fd : ℕ} {s : Option KernelSocket} (f : ℕ), f ≠ fd → Function.update k fd s f = k f :=
    fun f hf => Function.update_of_ne hf _ _
  by_cases htcp : serverType % 256 = G_SERVER_TCP
  · rw [if_pos htcp]
    rcases createBind_cases addr c.toBindCalls with ⟨hfail, hbind⟩ | ⟨fd, hsock, hok, hbind⟩
    · rw [hbind]
      exact iff_of_true ⟨_, rfl, rfl, rfl, rfl⟩ ⟨Or.inl htcp, serverCallsFit_of_fail hfail⟩
    · rw [hbind, serverCallsFit_iff hsock hok]
      dsimp only
      cases hlisten : c.listen with
      | true =>
        rw [if_pos rfl, Kernel.listen_update, enterServer_made_iff hother, Function.update_self]
        simp [htcp]
      | false =>
        rw [if_neg Bool.false_ne_true, Kernel.close_update, enterServer_made_iff hother, Function.update_self]
        simp [htcp]
  · rw [if_neg htcp]
    by_cases hudp : serverType % 256 = G_SERVER_UDP
    · rw [if_pos hudp]
      rcases createBind_cases addr c.toBindCalls with ⟨hfail, hbind⟩ | ⟨fd, hsock, hok, hbind⟩
      · rw [hbind]
        exact iff_of_true ⟨_, rfl, rfl, rfl, rfl⟩ ⟨Or.inr hudp, serverCallsFit_of_fail hfail⟩
      · rw [hbind, serverCallsFit_iff hsock hok]
        dsimp only
        rw [enterServer_made_iff hother, Function.update_self]
        have hnot : serverType % 256 = G_SERVER_TCP → c.listen = true := fun htcp' => absurd htcp' htcp
        exact ⟨fun h => ⟨Or.inr hudp, hnot, h.2⟩, fun h => ⟨rfl, h.2.2⟩⟩
    · rw [if_neg hudp]
      refine iff_of_false ?_ ?_
      · rintro ⟨r, ⟨⟩, -⟩
      · rintro ⟨htcp' | hudp', -⟩
        · exact htcp htcp'
        · exact hudp hudp'

/-- Before `create_server`. -/
def NetworkManager.new : NetworkManager := ⟨[], none, 0⟩

def noSockets : Kernel := fun _ => none

/-- All calls succeed, with descriptor 5, but perhaps `listen`. -/
def boundAtFive (listen : Bool) : ServerCalls noSockets :=
  { socket := some 5, setsockopt := true, bind := true, fresh := fun _ _ => rfl, listen := listen }

/-- A type that does not exist leads to a null pointer, and a socket that could not listen is closed and
returned all the same. -/
theorem server_half_made :
    NetworkManager.new.createServer noSockets 2 ⟨0, 80⟩ (boundAtFive true) = none ∧
      ∃ m' k' s, NetworkManager.new.createServer noSockets 0 ⟨0, 80⟩ (boundAtFive false) = some (m', k', some s) ∧
        k' s.fd = none ∧ m'.listenFd = some s.fd ∧
        ¬ ServerMade NetworkManager.new noSockets ⟨0, 80⟩ (m', k', some s) := by
  refine ⟨rfl, _, _, _, rfl, rfl, rfl, ?_⟩
  rintro ⟨hopen, -⟩
  cases hopen

/-- The two ways in which `create_server` returns. -/
theorem createServer_cases {serverType : ℤ} {c : ServerCalls k} {r : NetworkManager × Kernel × Option Socket}
    (h : m.createServer k serverType addr c = some r) :
    (r.1 = { m with made := m.made + 1 } ∧ r.2.2 = none) ∨
      ∃ kind fd r', m.enterServer kind fd = some r' ∧ r.1 = r'.1 ∧ r.2.2 = some r'.2 := by
  unfold NetworkManager.createServer at h
  dsimp only at h
  split_ifs at h with htcp hudp
  all_goals
    rcases createBind_cases addr c.toBindCalls with ⟨-, hbind⟩ | ⟨fd, -, -, hbind⟩
    · rw [hbind] at h
      cases h
      exact Or.inl ⟨rfl, rfl⟩
    · rw [hbind] at h
      obtain ⟨r', hr', rfl⟩ := Option.map_eq_some_iff.mp h
      exact Or.inr ⟨_, fd, r', hr', rfl, rfl⟩

/-- A server that is made here is one that the abstract network makes, and a failure is a failure. -/
theorem createServer_refines {n : Network} {serverType : ℤ} {c : ServerCalls k}
    {r : NetworkManager × Kernel × Option Socket} (hsockets : m.sockets = n.sys.sockets)
    (hmade : m.made = n.sys.made) (h : m.createServer k serverType addr c = some r) :
    ∃ kind, r.1.sockets = (n.createServer kind (r.2.2.map Socket.fd)).sys.sockets ∧
      r.1.made = (n.createServer kind (r.2.2.map Socket.fd)).sys.made := by
  rcases createServer_cases h with ⟨hm, hs⟩ | ⟨kind, fd, r', hent, hm, hs⟩
  · rw [hm, hs]
    exact ⟨.tcp, hsockets, congrArg (· + 1) hmade⟩
  · rw [enterServer_eq] at hent
    split_ifs at hent with hroom
    cases hent
    rw [hm, hs]
    refine ⟨kind, ?_, congrArg (· + 1) hmade⟩
    dsimp only
    rw [hsockets, hmade]
    rfl

/-! ## UDP clients -/

/-- A socket that is bound and connected to the sender of a datagram; or nothing new, and nothing to
dispatch. -/
def ClientMade (m : NetworkManager) (listenFd : ℕ) (k : Kernel) (addr : Ipv4Address) (c : AcceptCalls k) : Prop :=
  (∃ fd sender, (udpAccept k addr c).2 = some fd ∧ c.recvfrom = some sender ∧
    (udpAccept k addr c).1 fd = some ⟨some addr, false, some sender⟩ ∧ ∀ f, f ≠ fd →
    (udpAccept k addr c).1 f = k f) ∨
  ((udpAccept k addr c).2 = none ∧ (udpAccept k addr c).1 = k ∧
    m.genericAccept listenFd (udpAccept k addr c).2 = some (m, none))

/-- A client gets a socket that is bound, and whose peer is the sender only if both calls succeed. -/
theorem udpAccept_cases (addr : Ipv4Address) (c : AcceptCalls k) :
    (c.toBindCalls.Fail ∧ udpAccept k addr c = (k, none)) ∨
      ¬ c.toBindCalls.Fail ∧ ∃ fd, udpAccept k addr c =
        (Function.update k fd (some ⟨some addr, false, if c.connect then c.recvfrom else none⟩), some fd) := by
  unfold udpAccept
  rcases createBind_cases addr c.toBindCalls with ⟨hfail, hbind⟩ | ⟨fd, hsock, hok, hbind⟩
  · rw [hbind]
    exact Or.inl ⟨hfail, rfl⟩
  · have hnot : ¬ c.toBindCalls.Fail := by
      intro hfail
      rw [hfail fd hsock] at hok
      cases hok
    refine Or.inr ⟨hnot, fd, ?_⟩
    rw [hbind]
    cases hconn : c.connect with
    | true =>
      dsimp only
      unfold Kernel.connect
      rw [if_pos rfl, Function.update_self, Function.update_idem]
      rfl
    | false => rfl

/-- **Accepting a UDP client is all or nothing** exactly if there is no socket for it, or both a datagram
and a connection to its sender. For any outcomes of the system calls, at a server whose socket is in
the table. -/
theorem udp_accept_iff {listenFd : ℕ} {s : Socket} (hs : m.sockets[listenFd]? = some (some s)) (k : Kernel)
    (addr : Ipv4Address) (c : AcceptCalls k) :
    ClientMade m listenFd k addr c ↔ c.toBindCalls.Fail ∨ (c.recvfrom ≠ none ∧ c.connect = true) := by
  have hnothing : m.genericAccept listenFd none = some (m, none) := by
    unfold NetworkManager.genericAccept
    rw [hs]
    rfl
  unfold ClientMade
  rcases udpAccept_cases addr c with ⟨hfail, hacc⟩ | ⟨hnot, fd, hacc⟩
  · rw [hacc]
    exact iff_of_true (Or.inr ⟨rfl, rfl, hnothing⟩) (Or.inl hfail)
  · rw [hacc]
    dsimp only
    constructor
    · rintro (⟨f, sender, ⟨⟩, hrecv, hfd, -⟩ | ⟨⟨⟩, -⟩)
      rw [Function.update_self] at hfd
      refine Or.inr ⟨by rw [hrecv]; exact Option.some_ne_none _, ?_⟩
      cases hconn : c.connect with
      | true => rfl
      | false =>
        rw [hconn] at hfd
        cases hfd
    · rintro (hfail | ⟨hrecv, hconn⟩)
      · exact absurd hfail hnot
      · obtain ⟨sender, hsender⟩ := Option.ne_none_iff_exists'.mp hrecv
        refine Or.inl ⟨fd, sender, rfl, hsender, ?_, fun f hf => Function.update_of_ne hf _ _⟩
        rw [Function.update_self, hconn, hsender]
        rfl

/-- A UDP server at descriptor 3. -/
def udpAtThree : NetworkManager := ⟨[none, none, none, some ⟨0, .udp, 3⟩, none, none], some 3, 1⟩

def acceptsAtFive (recvfrom : Option Ipv4Address) : AcceptCalls noSockets :=
  { socket := some 5, setsockopt := true, bind := true, fresh := fun _ _ => rfl, recvfrom := recvfrom,
    connect := true }

theorem udp_accept_datagram : ClientMade udpAtThree 3 noSockets ⟨0, 53⟩ (acceptsAtFive (some ⟨1, 9999⟩)) :=
  (udp_accept_iff rfl noSockets ⟨0, 53⟩ (acceptsAtFive (some ⟨1, 9999⟩))).mpr
    (Or.inr ⟨Option.some_ne_none _, rfl⟩)

/-- Without a datagram a socket connected to nobody is returned, entered and dispatched. -/
theorem udp_accept_nothing :
    (udpAccept noSockets ⟨0, 53⟩ (acceptsAtFive none)).2 = some 5 ∧
      (udpAccept noSockets ⟨0, 53⟩ (acceptsAtFive none)).1 5 = some ⟨some ⟨0, 53⟩, false, none⟩ ∧
      (∃ m', udpAtThree.genericAccept 3 (some 5) = some (m', some ⟨1, .udp, 5⟩)) ∧
      ¬ ClientMade udpAtThree 3 noSockets ⟨0, 53⟩ (acceptsAtFive none) := by
  refine ⟨rfl, rfl, ⟨_, rfl⟩, ?_⟩
  rintro (⟨fd, sender, -, hrecv, -⟩ | ⟨hnone, -⟩)
  · cases hrecv
  · cases hnone

end Spigeon
