import Mathlib.Data.List.Perm.Subperm
import Spigeon.Proof.Owner
import Spigeon.Proof.Udp

/-!
# Connections of a UDP client

A client gets a second connection only from an `accept` that takes a datagram of a client
already connected, which was at the listening socket before that connection was made.

* `ClientsOK`: open descriptors are connected to different clients, and each has its one
  owner.
* `one_connection_per_client`: along every run without such an `accept`.
-/

namespace Spigeon

open Lts

variable {u u' : UdpServer}

/-- `accept` returns with a datagram of a client that an open socket is connected to. -/
def AcceptRepeats (u : UdpServer) (e : UdpEvent) : Prop :=
  (∃ fd, e = .sys (.accept fd)) ∧ ∃ d, u.calling = some (some d) ∧ ∃ f ∈ u.sys.fds, u.peers f = some d.src

def UdpEvent.polite : UdpEvent → Bool
  | .sys e => e.polite
  | _ => true

/-- Only open descriptors are connected, to different clients. -/
structure ClientsOK (u : UdpServer) : Prop where
  sys : SystemOK u.sys
  opened : ∀ f a, u.peers f = some a → f ∈ u.sys.fds
  apart : ∀ f f' a, u.peers f = some a → u.peers f' = some a → f = f'

theorem recvfrom_keeps (u : UdpServer) : u.recvfrom.sys = u.sys ∧ u.recvfrom.peers = u.peers := by
  unfold UdpServer.recvfrom
  split
  · exact ⟨rfl, rfl⟩
  · exact ⟨rfl, rfl⟩

theorem read_keeps {i : ℕ} {r : Option (ℕ × ℕ × DgramSrc)} (h : u.read i r = some u') : u'.peers = u.peers := by
  rcases read_cases h with rfl | ⟨id, fd, d, q, -, rfl⟩
  · rfl
  · rfl

theorem ClientsOK.accept (h : ClientsOK u) {fd : ℕ} {buf : Option Datagram} {sys : System} (hsys : SystemOK sys)
    (hcall : u.calling = some buf) (hfds : sys.fds = fd :: u.sys.fds)
    (hno : ¬ AcceptRepeats u (.sys (.accept fd))) : ClientsOK { u.connect fd buf with sys := sys } := by
  -- an old socket is connected to another client than the new one
  have hnew : ∀ f a, u.peers f = some a → buf.map Datagram.src ≠ some a := by
    intro f a hf hbuf
    obtain ⟨d, rfl, hd⟩ := Option.map_eq_some_iff.1 hbuf
    exact hno ⟨⟨fd, rfl⟩, d, hcall, f, h.opened f a hf, by rw [hd]; exact hf⟩
  refine ⟨hsys, ?_, ?_⟩
  · intro f a hf
    rw [hfds]
    simp only [UdpServer.connect] at hf
    split at hf
    · rename_i he; rw [he]; exact List.mem_cons_self
    · exact List.mem_cons_of_mem _ (h.opened f a hf)
  · intro f f' a hf hf'
    simp only [UdpServer.connect] at hf hf'
    split at hf
    · split at hf'
      · rename_i he he'; rw [he, he']
      · exact absurd hf (hnew f' a hf')
    · split at hf'
      · exact absurd hf' (hnew f a hf)
      · exact h.apart f f' a hf hf'

theorem ClientsOK.shut (h : ClientsOK u) {v : UdpServer} {sys : System} (shut : Option ℕ) (hsys : SystemOK sys)
    (hpeers : v.peers = u.peers)
    (hfds : sys.fds = match shut with | none => u.sys.fds | some fd => u.sys.fds.erase fd) :
    ClientsOK { v.disconnect shut with sys := sys } := by
  cases shut with
  | none =>
    refine ⟨hsys, ?_, ?_⟩
    · intro f a hf
      rw [hfds]; exact h.opened f a (by rw [← hpeers]; exact hf)
    · intro f f' a hf hf'
      exact h.apart f f' a (by rw [← hpeers]; exact hf) (by rw [← hpeers]; exact hf')
  | some fd =>
    have hold : ∀ {f : ℕ} {a : Ipv4Address},
        (v.disconnect (some fd)).peers f = some a → f ≠ fd ∧ u.peers f = some a := by
      intro f a hf
      simp only [UdpServer.disconnect] at hf
      split at hf
      · cases hf
      · rw [hpeers] at hf; exact ⟨‹_›, hf⟩
    refine ⟨hsys, ?_, ?_⟩
    · intro f a hf
      obtain ⟨hne, hf⟩ := hold hf
      rw [hfds]; exact (List.mem_erase_of_ne hne).2 (h.opened f a hf)
    · intro f f' a hf hf'
      exact h.apart f f' a (hold hf).2 (hold hf').2

theorem step_clients_ok {e : UdpEvent} (h : ClientsOK u) (hpol : e.polite = true) (hno : ¬ AcceptRepeats u e)
    (hst : u.step e = some u') : ClientsOK u' := by
  cases e with
  | arrive src data dest =>
    have hflow := step_flow hst
    cases hflow with
    | direct hpeer => exact ⟨h.sys, h.opened, h.apart⟩
    | listen => exact ⟨h.sys, h.opened, h.apart⟩
  | recvfrom =>
    simp only [UdpServer.step] at hst
    split at hst
    · obtain ⟨hsys, hpeers⟩ := recvfrom_keeps u
      rw [← Option.some.inj hst]
      exact ⟨by rw [hsys]; exact h.sys, by rw [hsys, hpeers]; exact h.opened, by rw [hpeers]; exact h.apart⟩
    · cases hst
  | acceptFails =>
    obtain ⟨buf, -, rfl⟩ := Option.map_eq_some_iff.1 hst
    exact ⟨h.sys, h.opened, h.apart⟩
  | sys e =>
    obtain ⟨sys, hstep, hst⟩ := Option.bind_eq_some_iff.1 hst
    have hsys : SystemOK sys := step_owner_ok u.sys e sys h.sys hpol hstep
    have hfds := step_fds hstep
    have hother : sys.fds = u.sys.fds → some ({ u with sys := sys } : UdpServer) = some u' → ClientsOK u' := by
      intro hsame he
      rw [← Option.some.inj he]
      exact ⟨hsys, by rw [hsame]; exact h.opened, h.apart⟩
    cases e with
    | accept fd =>
      obtain ⟨buf, hbuf, rfl⟩ := Option.map_eq_some_iff.1 hst
      -- the only event that connects a socket, by `hno` to an address that no open one has
      exact h.accept hsys hbuf hfds hno
    | worker i e =>
      obtain ⟨t, ht, hst⟩ := Option.bind_eq_some_iff.1 hst
      obtain ⟨v, hv, rfl⟩ := Option.map_eq_some_iff.1 hst
      exact h.shut _ hsys (read_keeps hv) (hfds t ht)
    | stop =>
      simp only [UdpServer.follow] at hst
      split at hst
      · exact hother hfds hst
      · cases hst
    | push => exact hother hfds hst
    | notify ok => exact hother hfds hst
    | quit ok => exact hother hfds hst
    | join => exact hother hfds hst
    | post i => exact hother hfds hst
    | recv i => exact hother hfds hst
    | process i => exact hother hfds hst

/-- The connections of a worker for one descriptor. -/
theorem watched_for_fd {w : Worker} (hinv : WorkerInv w) (htable : TableOK w) {fd : ℕ} {p : ℕ → Bool}
    (hp : ∀ id, p id = true → ∃ c, w.objs[id]? = some c ∧ c.fd = fd) :
    (w.watched.filter p).length ≤ w.holds fd := by
  have hsub : w.watched.filter p ⊆ (w.lookup fd).toList := by
    intro id hid
    obtain ⟨hid, hpid⟩ := List.mem_filter.1 hid
    obtain ⟨c, hobj, hfd⟩ := hp id hpid
    have hlook := htable.registered id hid c hobj
    rw [hfd] at hlook
    rw [hlook]; exact List.mem_singleton_self id
  have hlen := (List.Nodup.subperm (hinv.1.nodup.filter p) hsub).length_le
  have hone : (w.lookup fd).toList.length = if (w.lookup fd).isSome then 1 else 0 := by
    cases w.lookup fd <;> rfl
  unfold Worker.holds
  omega

theorem ClientsOK.live_le_one (h : ClientsOK u) (a : Ipv4Address) : u.live a ≤ 1 := by
  have hpeer : ∀ {w : Worker} {id : ℕ}, u.peerOf w id = some a → ∃ c, w.objs[id]? = some c ∧
      u.peers c.fd = some a := by
    intro w id hp
    obtain ⟨c, hobj, hp⟩ := Option.bind_eq_some_iff.1 hp
    exact ⟨c, hobj, hp⟩
  by_cases hex : ∃ f, u.peers f = some a
  · obtain ⟨f, hf⟩ := hex
    -- all of them are for the descriptor connected to the client, which has one place
    have hsum : u.live a ≤ (u.sys.threads.map fun t => t.places f).sum := by
      unfold UdpServer.live
      refine List.sum_le_sum ?_
      intro t ht
      obtain ⟨hinv, htable⟩ := h.sys.workers t ht
      refine le_trans (watched_for_fd hinv htable ?_) (Nat.le_add_left _ _)
      intro id hid
      obtain ⟨c, hobj, hc⟩ := hpeer (of_decide_eq_true hid)
      exact ⟨c, hobj, h.apart c.fd f a hc hf⟩
    have hplaces : places u.sys.phase u.sys.threads f ≤ 1 := by
      rw [h.sys.owned f]; exact List.nodup_iff_count_le_one.1 h.sys.nodup f
    unfold places at hplaces
    omega
  · have hzero : ∀ t ∈ u.sys.threads,
        (t.worker.watched.filter fun id => decide (u.peerOf t.worker id = some a)).length = 0 := by
      intro t _
      rw [List.length_eq_zero_iff, List.filter_eq_nil_iff]
      intro id _ hid
      obtain ⟨c, -, hc⟩ := hpeer (of_decide_eq_true hid)
      exact hex ⟨c.fd, hc⟩
    unfold UdpServer.live
    rw [List.sum_eq_zero]
    · exact Nat.zero_le 1
    · intro n hn
      obtain ⟨t, ht, rfl⟩ := List.mem_map.1 hn
      exact hzero t ht

/-- **One connection for each client**, if no `accept` takes a datagram of a client that
is already connected and handlers leave their connections alone. -/
theorem one_connection_per_client (listenFd n timeout : ℕ) (ssl : Bool) (now : ℕ) {es : List UdpEvent}
    (hpol : ∀ e ∈ es, e.polite = true)
    (hno : Along UdpServer.step (fun u e => ¬ AcceptRepeats u e) (UdpServer.init listenFd n timeout ssl now) es) :
    Always UdpServer.step (fun u => ∀ a, u.live a ≤ 1) (UdpServer.init listenFd n timeout ssl now) es := by
  have hinit : ClientsOK (UdpServer.init listenFd n timeout ssl now) := by
    refine ⟨init_system_ok .udp listenFd n timeout ssl now, ?_, ?_⟩
    · intro f a hf; cases hf
    · intro f f' a hf; cases hf
  have hall := always_along (fun _ _ _ h hc => step_clients_ok h hc.1 hc.2) hinit ((along_of_forall hpol).and hno)
  exact hall.mono fun _ h => h.live_le_one

end Spigeon
