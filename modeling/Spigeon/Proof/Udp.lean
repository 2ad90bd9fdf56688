import Mathlib.Data.List.Perm.Basic
import Spigeon.Lib.Lts
import Spigeon.Spec.Udp

/-!
# Datagrams of a UDP server

What a worker reads from a connected socket is handed to the handler of that socket's
connection. What `UDPSocket::accept` takes from the listening socket is not: it stays in
a local buffer of which only the sender is used.

* `datagrams_delivered_iff`: the datagrams of a run are all delivered, each client by one
  connection, exactly if no `accept` of the run returns with a datagram in its buffer.
* `accept_loses_datagrams`: two datagrams of one client, both lost, and two connections.
* `datagrams_accounted`: in every run, nothing but these datagrams is lost.
-/

namespace Spigeon

open Lts

/-- No datagram is lost or split between connections. -/
structure Delivered (u : UdpServer) : Prop where
  /-- every client has at most one live connection -/
  single : ∀ a, u.live a ≤ 1
  /-- every datagram taken has been handed over, or is still in the buffer of `accept` -/
  whole : u.taken.Perm (u.handed.map Handed.dgram ++ u.calling.join.toList)
  /-- to a connection of its sender -/
  own : ∀ h ∈ u.handed, h.peer = some h.dgram.src
  /-- in the order of arrival -/
  order : u.handed.Pairwise fun h h' => h.dgram.src = h'.dgram.src → h.dgram.seq < h'.dgram.seq

/-- `UDPSocket::accept` returns, with a socket or without. -/
def UdpEvent.acceptReturns : UdpEvent → Bool
  | .acceptFails => true
  | .sys (.accept _) => true
  | _ => false

/-- `UDPSocket::accept` returns, and there is a datagram in its buffer. -/
def AcceptLoses (u : UdpServer) (e : UdpEvent) : Prop :=
  e.acceptReturns = true ∧ (∃ d, u.calling = some (some d)) ∧ (u.step e).isSome = true

variable {u u' : UdpServer}

/-! ## Steps -/

/-- What one step can do to the datagrams. -/
inductive Flow (u : UdpServer) : UdpEvent → UdpServer → Prop where
  | direct {src : Ipv4Address} {data : List UInt8} {fd : ℕ} (hpeer : u.peers fd = some src) :
      Flow u (.arrive src data (some fd))
        { u with
          arrivals := u.arrivals + 1
          queues := fun f => if f = fd then u.queues fd ++ [⟨u.arrivals, src, data⟩] else u.queues f }
  | listen {src : Ipv4Address} {data : List UInt8} :
      Flow u (.arrive src data none)
        { u with arrivals := u.arrivals + 1, listenQ := u.listenQ ++ [⟨u.arrivals, src, data⟩] }
  | recvfrom (hidle : u.calling = none) : Flow u .recvfrom u.recvfrom
  | accept {fd : ℕ} {buf : Option Datagram} {sys : System} (hcall : u.calling = some buf) :
      Flow u (.sys (.accept fd)) { u.connect fd buf with sys := sys }
  | fails {buf : Option Datagram} (hcall : u.calling = some buf) : Flow u .acceptFails (u.acceptFails buf)
  | read {i id fd : ℕ} {e : WorkerEvent} {d : Datagram} {q : List Datagram} {sys : System} {shut : Option ℕ}
      (hq : u.queues fd = d :: q) :
      Flow u (.sys (.worker i e))
        { UdpServer.disconnect { u with
            queues := fun f => if f = fd then q else u.queues f
            taken := u.taken ++ [d]
            handed := u.handed ++ [⟨d, i, id, fd, u.peers fd⟩] } shut with sys := sys }
  | other {e : SystemEvent} {sys : System} (shut : Option ℕ) :
      Flow u (.sys e) { u.disconnect shut with sys := sys }

theorem read_cases {i : ℕ} {r : Option (ℕ × ℕ × DgramSrc)} (h : u.read i r = some u') :
    u' = u ∨ ∃ id fd d q, u.queues fd = d :: q ∧
      u' = { u with
        queues := fun f => if f = fd then q else u.queues f
        taken := u.taken ++ [d]
        handed := u.handed ++ [⟨d, i, id, fd, u.peers fd⟩] } := by
  rcases r with _ | ⟨id, fd, src⟩
  · exact Or.inl (Option.some.inj h).symm
  · cases src with
    | error => exact Or.inl (Option.some.inj h).symm
    | again =>
      simp only [UdpServer.read] at h
      split at h
      · exact Or.inl (Option.some.inj h).symm
      · cases h
    | datagram bs =>
      simp only [UdpServer.read] at h
      cases hq : u.queues fd with
      | nil => rw [hq] at h; cases h
      | cons d q =>
        simp only [hq] at h
        split at h
        · exact Or.inr ⟨id, fd, d, q, hq, (Option.some.inj h).symm⟩
        · cases h

theorem step_flow {e : UdpEvent} (h : u.step e = some u') : Flow u e u' := by
  cases e with
  | arrive src data dest =>
    cases dest with
    | some fd =>
      simp only [UdpServer.step, UdpServer.arrive] at h
      split at h
      · rename_i hg
        rw [← Option.some.inj h]
        exact .direct hg.2
      · cases h
    | none =>
      simp only [UdpServer.step, UdpServer.arrive] at h
      split at h
      · rw [← Option.some.inj h]
        exact .listen
      · cases h
  | recvfrom =>
    simp only [UdpServer.step] at h
    split at h
    · rename_i hg
      rw [← Option.some.inj h]
      exact .recvfrom hg.2
    · cases h
  | acceptFails =>
    obtain ⟨buf, hbuf, rfl⟩ := Option.map_eq_some_iff.1 h
    exact .fails hbuf
  | sys e =>
    obtain ⟨sys, -, h⟩ := Option.bind_eq_some_iff.1 h
    -- a step that leaves the sockets alone
    have hother : ∀ {e : SystemEvent}, some ({ u with sys := sys } : UdpServer) = some u' →
        Flow u (.sys e) u' := by
      intro e he
      rw [← Option.some.inj he]
      exact .other none
    cases e with
    | accept fd =>
      obtain ⟨buf, hbuf, rfl⟩ := Option.map_eq_some_iff.1 h
      exact .accept hbuf
    | stop =>
      simp only [UdpServer.follow] at h
      split at h
      · exact hother h
      · cases h
    | worker i e =>
      obtain ⟨t, -, h⟩ := Option.bind_eq_some_iff.1 h
      obtain ⟨v, hv, rfl⟩ := Option.map_eq_some_iff.1 h
      rcases read_cases hv with rfl | ⟨id, fd, d, q, hq, rfl⟩
      · exact .other _
      · exact .read hq
    | push => exact hother h
    | notify ok => exact hother h
    | quit ok => exact hother h
    | join => exact hother h
    | post i => exact hother h
    | recv i => exact hother h
    | process i => exact hother h

/-! ## Delivery -/

/-- No socket is connected to a client, so nothing can be read from one. -/
structure Untouched (u : UdpServer) : Prop where
  peers : ∀ fd, u.peers fd = none
  queues : ∀ fd, u.queues fd = []
  taken : u.taken = u.calling.join.toList
  handed : u.handed = []

theorem Untouched.disconnect (h : Untouched u) (shut : Option ℕ) (sys : System) :
    Untouched { u.disconnect shut with sys := sys } := by
  cases shut with
  | none => exact ⟨h.peers, h.queues, h.taken, h.handed⟩
  | some fd =>
    refine ⟨fun f => ?_, fun f => ?_, h.taken, h.handed⟩
    · simp only [UdpServer.disconnect]; split
      · rfl
      · exact h.peers f
    · simp only [UdpServer.disconnect]; split
      · rfl
      · exact h.queues f

theorem step_untouched {e : UdpEvent} (h : Untouched u) (hno : ¬ AcceptLoses u e) (hst : u.step e = some u') :
    Untouched u' := by
  -- when `accept` returns its buffer is empty
  have hempty : ∀ {buf : Option Datagram}, e.acceptReturns = true → u.calling = some buf → buf = none := by
    intro buf he hcall
    cases buf with
    | none => rfl
    | some d => exact absurd ⟨he, ⟨d, hcall⟩, by rw [hst]; rfl⟩ hno
  have hflow := step_flow hst
  cases hflow with
  | direct hpeer => rw [h.peers] at hpeer; cases hpeer
  | listen => exact ⟨h.peers, h.queues, h.taken, h.handed⟩
  | recvfrom hidle =>
    have htaken := h.taken
    rw [hidle] at htaken
    unfold UdpServer.recvfrom
    split
    · exact ⟨h.peers, h.queues, htaken, h.handed⟩
    · refine ⟨h.peers, h.queues, ?_, h.handed⟩
      simp only [htaken]
      rfl
  | accept hcall =>
    -- so the new socket has no client
    have hbuf := hempty rfl hcall
    have htaken := h.taken
    rw [hcall] at htaken
    subst hbuf
    refine ⟨fun f => ?_, fun f => ?_, htaken, h.handed⟩
    · simp only [UdpServer.connect]; split
      · rfl
      · exact h.peers f
    · simp only [UdpServer.connect]; split
      · rfl
      · exact h.queues f
  | fails hcall =>
    have hbuf := hempty rfl hcall
    have htaken := h.taken
    rw [hcall] at htaken
    subst hbuf
    exact ⟨h.peers, h.queues, htaken, h.handed⟩
  | read hq => rw [h.queues] at hq; cases hq
  | other shut => exact h.disconnect shut _

theorem delivered_of_untouched (h : Untouched u) : Delivered u := by
  refine ⟨?_, ?_, ?_, ?_⟩
  · intro a
    have hnone : ∀ (w : Worker) (id : ℕ), u.peerOf w id = none := by
      intro w id
      unfold UdpServer.peerOf
      cases w.objs[id]? with
      | none => rfl
      | some c => exact h.peers c.fd
    unfold UdpServer.live
    simp [hnone]
  · rw [h.taken, h.handed]; exact List.Perm.refl _
  · intro x hx; rw [h.handed] at hx; cases hx
  · rw [h.handed]; exact List.Pairwise.nil

/-- When `accept` returns, the datagram in its buffer has been taken and will not be
handed over. -/
theorem acceptLoses_undelivered {e : UdpEvent} (h : Delivered u) (hl : AcceptLoses u e) :
    ∃ u', u.step e = some u' ∧ ¬ Delivered u' := by
  obtain ⟨hret, ⟨d, hcall⟩, hsome⟩ := hl
  obtain ⟨u', hst⟩ := Option.isSome_iff_exists.1 hsome
  refine ⟨u', hst, fun h' => ?_⟩
  -- nothing is taken or handed over, and the buffer is gone
  have hkeeps : u'.taken = u.taken ∧ u'.handed = u.handed ∧ u'.calling = none := by
    have hflow := step_flow hst
    cases hflow with
    | accept hcall' => exact ⟨rfl, rfl, rfl⟩
    | fails hcall' => exact ⟨rfl, rfl, rfl⟩
    | other shut =>
      rename_i e sys
      cases e with
      | accept fd =>
        obtain ⟨sys', -, hst⟩ := Option.bind_eq_some_iff.1 hst
        obtain ⟨buf, -, hst⟩ := Option.map_eq_some_iff.1 hst
        rw [← hst]; exact ⟨rfl, rfl, rfl⟩
      | _ => cases hret
    | _ => cases hret
  obtain ⟨htaken, hhanded, hgone⟩ := hkeeps
  have hlen := h.whole.length_eq
  have hlen' := h'.whole.length_eq
  rw [hcall] at hlen
  rw [htaken, hhanded, hgone] at hlen'
  simp at hlen hlen'
  omega

/-- **Datagrams are delivered exactly in the runs in which no `accept` returns with a
datagram in its buffer.** For every order of arrival, every choice of the kernel among
the sockets of a client, and every interleaving of the threads. -/
theorem datagrams_delivered_iff (listenFd n timeout : ℕ) (ssl : Bool) (now : ℕ) (es : List UdpEvent) :
    Always UdpServer.step Delivered (UdpServer.init listenFd n timeout ssl now) es ↔
      Along UdpServer.step (fun u e => ¬ AcceptLoses u e) (UdpServer.init listenFd n timeout ssl now) es := by
  constructor
  · intro hall
    refine along_of_always (I := fun _ => True) (fun _ _ _ _ _ => trivial) ?_ trivial hall
    intro u e _ hu hnext hl
    obtain ⟨u', hst, hlost⟩ := acceptLoses_undelivered hu hl
    exact hlost (hnext u' hst)
  · intro hno
    have hinit : Untouched (UdpServer.init listenFd n timeout ssl now) := ⟨fun _ => rfl, fun _ => rfl, rfl, rfl⟩
    have hall := always_along (fun _ _ _ => step_untouched) hinit hno
    exact hall.mono fun _ h => delivered_of_untouched h

/-- A client, and the first two datagrams it sends. -/
def client : Ipv4Address := ⟨0x7f000001, 40000⟩

def twoHellos : List UdpEvent :=
  [.arrive client [104] none, .arrive client [105] none,
    .recvfrom, .sys (.accept 7), .sys .push, .sys (.notify true),
    .recvfrom, .sys (.accept 8), .sys .push, .sys (.notify true),
    .sys (.recv 0), .sys (.process 0), .sys (.recv 0), .sys (.process 0)]

/-- Both datagrams are taken and none is handed over; the client has two connections. -/
theorem accept_loses_datagrams :
    ∃ u, run UdpServer.step (UdpServer.init 3 1 60 false 0) twoHellos = some u ∧
      u.taken = [⟨0, client, [104]⟩, ⟨1, client, [105]⟩] ∧ u.handed = [] ∧ u.live client = 2 ∧ ¬ Delivered u := by
  have hmap : (run UdpServer.step (UdpServer.init 3 1 60 false 0) twoHellos).map
      (fun u => (u.taken, u.handed, u.live client)) =
        some ([⟨0, client, [104]⟩, ⟨1, client, [105]⟩], [], 2) := by decide +kernel
  obtain ⟨u, hrun, hv⟩ := Option.map_eq_some_iff.1 hmap
  simp only [Prod.mk.injEq] at hv
  obtain ⟨htaken, hhanded, hlive⟩ := hv
  refine ⟨u, hrun, htaken, hhanded, hlive, fun hd => ?_⟩
  have hone := hd.single client
  rw [hlive] at hone
  omega

/-! ## What happens to the other datagrams -/

/-- Where the datagrams taken so far have gone. -/
structure Accounted (u : UdpServer) : Prop where
  /-- to a handler, or into the buffer of an `accept` -/
  split : u.taken.Perm (u.handed.map Handed.dgram ++ (u.lost ++ u.calling.join.toList))
  /-- a handler gets the datagrams of its client -/
  own : ∀ h ∈ u.handed, h.peer = some h.dgram.src
  /-- those read from one descriptor come in the order of arrival -/
  order : u.handed.Pairwise fun h h' => h.fd = h'.fd → h.dgram.seq < h'.dgram.seq

/-- The datagrams waiting at the connected sockets. -/
structure QueuesOK (u : UdpServer) : Prop where
  sender : ∀ fd, ∀ d ∈ u.queues fd, u.peers fd = some d.src
  sorted : ∀ fd, (u.queues fd).Pairwise fun d d' => d.seq < d'.seq
  old : ∀ fd, ∀ d ∈ u.queues fd, d.seq < u.arrivals
  oldHanded : ∀ h ∈ u.handed, h.dgram.seq < u.arrivals
  /-- what has been read from a descriptor arrived before what still waits there -/
  later : ∀ h ∈ u.handed, ∀ d ∈ u.queues h.fd, h.dgram.seq < d.seq

/-- Emptying the queue of one descriptor, whatever it is connected to then. -/
theorem QueuesOK.clear {v : UdpServer} (h : QueuesOK u) (fd : ℕ) (harr : v.arrivals = u.arrivals)
    (hhanded : v.handed = u.handed) (hpeers : ∀ f, f ≠ fd → v.peers f = u.peers f)
    (hqueues : v.queues = fun f => if f = fd then [] else u.queues f) : QueuesOK v := by
  have hmem : ∀ {f : ℕ} {d : Datagram}, d ∈ v.queues f → f ≠ fd ∧ d ∈ u.queues f := by
    intro f d hd
    rw [hqueues] at hd
    dsimp only at hd
    split at hd
    · cases hd
    · exact ⟨‹_›, hd⟩
  refine ⟨?_, ?_, ?_, ?_, ?_⟩
  · intro f d hd
    obtain ⟨hne, hd⟩ := hmem hd
    rw [hpeers f hne]; exact h.sender f d hd
  · intro f
    rw [hqueues]
    dsimp only
    split
    · exact List.Pairwise.nil
    · exact h.sorted f
  · intro f d hd; rw [harr]; exact h.old f d (hmem hd).2
  · intro x hx
    rw [hhanded] at hx
    rw [harr]; exact h.oldHanded x hx
  · intro x hx d hd
    rw [hhanded] at hx
    exact h.later x hx d (hmem hd).2

theorem QueuesOK.disconnect (h : QueuesOK u) (shut : Option ℕ) (sys : System) :
    QueuesOK { u.disconnect shut with sys := sys } := by
  cases shut with
  | none => exact ⟨h.sender, h.sorted, h.old, h.oldHanded, h.later⟩
  | some fd => exact h.clear fd rfl rfl (fun f hf => if_neg hf) rfl

theorem disconnect_accounted (h : Accounted u) (shut : Option ℕ) (sys : System) :
    Accounted { u.disconnect shut with sys := sys } := by
  cases shut with
  | none => exact ⟨h.split, h.own, h.order⟩
  | some fd => exact ⟨h.split, h.own, h.order⟩

/-- A datagram arrives at a connected socket. -/
theorem QueuesOK.direct (h : QueuesOK u) {src : Ipv4Address} {data : List UInt8} {fd : ℕ}
    (hpeer : u.peers fd = some src) :
    QueuesOK { u with
      arrivals := u.arrivals + 1
      queues := fun f => if f = fd then u.queues fd ++ [⟨u.arrivals, src, data⟩] else u.queues f } := by
  have hmem : ∀ {f : ℕ} {d : Datagram},
      d ∈ (if f = fd then u.queues fd ++ [⟨u.arrivals, src, data⟩] else u.queues f) →
        d ∈ u.queues f ∨ (f = fd ∧ d = ⟨u.arrivals, src, data⟩) := by
    intro f d hd
    split at hd
    · rename_i hf
      subst hf
      rcases List.mem_append.1 hd with hd | hd
      · exact Or.inl hd
      · exact Or.inr ⟨rfl, List.mem_singleton.1 hd⟩
    · exact Or.inl hd
  refine ⟨?_, ?_, ?_, ?_, ?_⟩
  · intro f d hd
    rcases hmem hd with hd | ⟨rfl, rfl⟩
    · exact h.sender f d hd
    · exact hpeer
  · intro f
    dsimp only
    split
    · -- the new datagram is the latest one
      refine List.pairwise_append.2 ⟨h.sorted fd, List.pairwise_singleton _ _, ?_⟩
      intro d hd d' hd'
      rw [List.mem_singleton.1 hd']
      exact h.old fd d hd
    · exact h.sorted f
  · intro f d hd
    rcases hmem hd with hd | ⟨-, rfl⟩
    · exact Nat.lt_succ_of_lt (h.old f d hd)
    · exact Nat.lt_succ_self _
  · intro x hx; exact Nat.lt_succ_of_lt (h.oldHanded x hx)
  · intro x hx d hd
    rcases hmem hd with hd | ⟨-, rfl⟩
    · exact h.later x hx d hd
    · exact h.oldHanded x hx

/-- A worker reads the first datagram of a queue. -/
theorem QueuesOK.read (h : QueuesOK u) {i id fd : ℕ} {d : Datagram} {q : List Datagram}
    (hq : u.queues fd = d :: q) :
    QueuesOK { u with
      queues := fun f => if f = fd then q else u.queues f
      taken := u.taken ++ [d]
      handed := u.handed ++ [⟨d, i, id, fd, u.peers fd⟩] } := by
  have hsorted := h.sorted fd
  rw [hq, List.pairwise_cons] at hsorted
  have hmem : ∀ {f : ℕ} {x : Datagram}, x ∈ (if f = fd then q else u.queues f) → x ∈ u.queues f := by
    intro f x hx
    split at hx
    · rename_i hf
      rw [hf, hq]; exact List.mem_cons_of_mem _ hx
    · exact hx
  refine ⟨fun f x hx => h.sender f x (hmem hx), ?_, fun f x hx => h.old f x (hmem hx), ?_, ?_⟩
  · intro f
    dsimp only
    split
    · exact hsorted.2
    · exact h.sorted f
  · intro x hx
    rcases List.mem_append.1 hx with hx | hx
    · exact h.oldHanded x hx
    · rw [List.mem_singleton.1 hx]
      exact h.old fd d (by rw [hq]; exact List.mem_cons_self)
  · intro x hx y hy
    rcases List.mem_append.1 hx with hx | hx
    · exact h.later x hx y (hmem hy)
    · rw [List.mem_singleton.1 hx] at hy ⊢
      dsimp only at hy
      rw [if_pos rfl] at hy
      exact hsorted.1 y hy

theorem read_accounted (h : Accounted u) (hok : QueuesOK u) {i id fd : ℕ} {d : Datagram} {q : List Datagram}
    (hq : u.queues fd = d :: q) :
    Accounted { u with
      queues := fun f => if f = fd then q else u.queues f
      taken := u.taken ++ [d]
      handed := u.handed ++ [⟨d, i, id, fd, u.peers fd⟩] } := by
  have hd : d ∈ u.queues fd := by rw [hq]; exact List.mem_cons_self
  refine ⟨?_, ?_, ?_⟩
  · have hsplit := h.split
    generalize u.lost ++ u.calling.join.toList = rest at hsplit ⊢
    have hperm : (u.taken ++ [d]).Perm ((u.handed.map Handed.dgram ++ [d]) ++ rest) :=
      calc (u.taken ++ [d]).Perm ((u.handed.map Handed.dgram ++ rest) ++ [d]) := hsplit.append_right [d]
        _ = u.handed.map Handed.dgram ++ (rest ++ [d]) := List.append_assoc _ _ _
        List.Perm _ (u.handed.map Handed.dgram ++ ([d] ++ rest)) := List.perm_append_comm.append_left _
        _ = (u.handed.map Handed.dgram ++ [d]) ++ rest := (List.append_assoc _ _ _).symm
    simpa only [List.map_append, List.map_singleton] using hperm
  · intro x hx
    rcases List.mem_append.1 hx with hx | hx
    · exact h.own x hx
    · rw [List.mem_singleton.1 hx]
      exact hok.sender fd d hd
  · refine List.pairwise_append.2 ⟨h.order, List.pairwise_singleton _ _, ?_⟩
    intro x hx y hy hfd
    rw [List.mem_singleton.1 hy] at hfd ⊢
    exact hok.later x hx d (by rw [hfd]; exact hd)

theorem step_accounted (u : UdpServer) (e : UdpEvent) (u' : UdpServer) (h : QueuesOK u ∧ Accounted u)
    (hst : u.step e = some u') : QueuesOK u' ∧ Accounted u' := by
  obtain ⟨hok, hacc⟩ := h
  have hflow := step_flow hst
  cases hflow with
  | direct hpeer => exact ⟨hok.direct hpeer, ⟨hacc.split, hacc.own, hacc.order⟩⟩
  | listen =>
    refine ⟨⟨hok.sender, hok.sorted, ?_, ?_, hok.later⟩, ⟨hacc.split, hacc.own, hacc.order⟩⟩
    · intro f d hd; exact Nat.lt_succ_of_lt (hok.old f d hd)
    · intro x hx; exact Nat.lt_succ_of_lt (hok.oldHanded x hx)
  | recvfrom hidle =>
    have hsplit := hacc.split
    rw [hidle] at hsplit
    unfold UdpServer.recvfrom
    split
    · exact ⟨⟨hok.sender, hok.sorted, hok.old, hok.oldHanded, hok.later⟩, ⟨hsplit, hacc.own, hacc.order⟩⟩
    · rename_i d q hq
      -- the datagram is taken, and in the hands of the call of `accept`
      refine ⟨⟨hok.sender, hok.sorted, hok.old, hok.oldHanded, hok.later⟩, ⟨?_, hacc.own, hacc.order⟩⟩
      have hperm : (u.taken ++ [d]).Perm (u.handed.map Handed.dgram ++ (u.lost ++ [d])) := by
        have happ := hsplit.append_right [d]
        simpa only [Option.join_none, Option.toList_none, List.append_nil, List.append_assoc] using happ
      exact hperm
  | accept hcall =>
    rename_i fd buf sys
    refine ⟨hok.clear fd rfl rfl (fun f hf => if_neg hf) rfl, ⟨?_, hacc.own, hacc.order⟩⟩
    have hsplit := hacc.split
    rw [hcall] at hsplit
    simpa [UdpServer.connect] using hsplit
  | fails hcall =>
    refine ⟨⟨hok.sender, hok.sorted, hok.old, hok.oldHanded, hok.later⟩, ⟨?_, hacc.own, hacc.order⟩⟩
    have hsplit := hacc.split
    rw [hcall] at hsplit
    simpa [UdpServer.acceptFails] using hsplit
  | read hq =>
    rename_i shut
    exact ⟨(hok.read hq).disconnect _ _, disconnect_accounted (read_accounted hacc hok hq) _ _⟩
  | other shut => exact ⟨hok.disconnect shut _, disconnect_accounted hacc shut _⟩

/-- **Nothing but the buffers of `accept` is lost.** In every run, every other datagram
taken is handed to a connection of its sender, those of one descriptor in the order of
arrival. -/
theorem datagrams_accounted (listenFd n timeout : ℕ) (ssl : Bool) (now : ℕ) (es : List UdpEvent) :
    Always UdpServer.step Accounted (UdpServer.init listenFd n timeout ssl now) es := by
  have hinit : QueuesOK (UdpServer.init listenFd n timeout ssl now) ∧
      Accounted (UdpServer.init listenFd n timeout ssl now) := by
    refine ⟨⟨?_, ?_, ?_, ?_, ?_⟩, ⟨List.Perm.refl _, ?_, List.Pairwise.nil⟩⟩
    · intro f d hd; cases hd
    · intro f; exact List.Pairwise.nil
    · intro f d hd; cases hd
    · intro x hx; cases hx
    · intro x hx; cases hx
    · intro x hx; cases hx
  exact (always step_accounted hinit).mono fun _ h => h.2

end Spigeon
