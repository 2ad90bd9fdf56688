import Spigeon.Spec.HttpClient
import Mathlib.Data.List.Nodup

/-!
# Requests and connections of the HTTP client

The invariant of `EvHttpClient`, cell by cell: each request is on a connection of its own or was called back and
deleted, and each connection has a request, is in the pool, or was deleted. In the middle of a function some
cells are loose, so the invariant says which (`Loose`).

An operation changes a few cells. `Inv.change` asks for these alone, and there is one lemma for each thing that
a cell can be: `Attached.requestOK`, `Attached.connOK`, `RequestOK.floating`, `RequestOK.gone`, `ConnOK.loose`,
`ConnOK.idle`, `ConnOK.gone`.
-/

namespace Spigeon

namespace EvHttpClient

open Function (update)

/-! ### Requests and connections -/

/-- A request and its connection. -/
structure Pin where
  r : ℕ
  q : RequestInfo
  id : ℕ
  k : HttpConn

/-- What is loose in the middle of a function: a request that was called back and not deleted yet, requests
without a connection, and a connection without a request that is not in the pool. What is pinned is left as it
is. -/
structure Loose where
  called : Option ℕ := none
  requests : List ℕ := []
  conn : Option ℕ := none
  pinned : Option Pin := none

/-- A request on its connection: what the socket has accepted is a beginning of the request, at most one of the
two watchers is active, and the answer is awaited when everything was sent. -/
structure Attached (s : EvHttpClient) (l : Loose) (r : ℕ) (q : RequestInfo) (id : ℕ) (k : HttpConn) : Prop where
  request : s.requests r = some q
  conn : s.conns id = some k
  to_request : k.request = some r
  to_conn : q.conn = some id
  not_float : r ∉ l.requests
  not_pooled : id ∉ s.connections
  incomplete : l.called ≠ some r → k.messageComplete = false
  begun : k.headerState = .done → k.messageBegun = true
  sent_le : k.requestBytesSent ≤ q.requestString.length
  wire : k.wire = q.requestString.take k.requestBytesSent
  watch : s.writeOn id = true → s.readOn id = false
  reads : s.readOn id = true → k.requestBytesSent = q.requestString.length

structure RequestOK (s : EvHttpClient) (l : Loose) (r : ℕ) : Prop where
  lt : ∀ q, s.requests r = some q → r < s.nextRequest
  link : ∀ q, s.requests r = some q → r ∉ l.requests → ∃ id k, s.Attached l r q id k
  float : r ∈ l.requests → ∃ q, s.requests r = some q ∧ q.conn = none
  timer : s.timerOn r = true → (s.requests r).isSome
  settled : r < s.nextRequest → (s.requests r).isSome ∨ r ∈ s.calledBack
  once : r ∈ s.calledBack → r < s.nextRequest ∧ (s.requests r = none ∨ l.called = some r)

structure ConnOK (s : EvHttpClient) (l : Loose) (id : ℕ) : Prop where
  lt : ∀ k, s.conns id = some k → id < s.nextConn
  link : ∀ k, s.conns id = some k → id ∉ s.connections → l.conn ≠ some id → ∃ r q, s.Attached l r q id k
  free : l.conn = some id → id ∉ s.connections ∧ ∃ k, s.conns id = some k ∧ k.request = none
  pooled : id ∈ s.connections → ∃ k, s.conns id = some k ∧ k.request = none ∧ s.writeOn id = false ∧
    s.readOn id = false
  write : s.writeOn id = true → (s.conns id).isSome
  read : s.readOn id = true → (s.conns id).isSome
  closed : id ∈ s.closed → id < s.nextConn ∧ s.conns id = none ∧ id ∉ s.leaked
  leaked : id ∈ s.leaked → id < s.nextConn ∧ s.conns id = none
  accounted : id < s.nextConn → (s.conns id).isSome ∨ id ∈ s.closed ∨ id ∈ s.leaked

/-- **The invariant of the client.** -/
structure Inv (s : EvHttpClient) (l : Loose) : Prop where
  requests : ∀ r, s.RequestOK l r
  conns : ∀ id, s.ConnOK l id
  pinned : ∀ p ∈ l.pinned, s.Attached l p.r p.q p.id p.k
  pool_nodup : s.connections.Nodup
  pool_le : s.connections.length ≤ CInt.toSize s.initNumConns
  calls_nodup : s.calledBack.Nodup
  closed_nodup : s.closed.Nodup

/-- Nothing has changed for the request. -/
structure SameRequest (s s' : EvHttpClient) (l l' : Loose) (r : ℕ) : Prop where
  request : s'.requests r = s.requests r
  timer : s'.timerOn r = true → s.timerOn r = true ∨ (s'.requests r).isSome
  float : r ∈ l'.requests ↔ r ∈ l.requests
  called : l'.called = some r ↔ l.called = some r
  calledBack : r ∈ s'.calledBack ↔ r ∈ s.calledBack
  next : r < s'.nextRequest ↔ r < s.nextRequest

/-- Nothing has changed for the connection. -/
structure SameConn (s s' : EvHttpClient) (l l' : Loose) (id : ℕ) : Prop where
  conn : s'.conns id = s.conns id
  write : s'.writeOn id = s.writeOn id
  read : s'.readOn id = s.readOn id
  pool : id ∈ s'.connections ↔ id ∈ s.connections
  free : l'.conn = some id ↔ l.conn = some id
  closed : id ∈ s'.closed ↔ id ∈ s.closed
  leaked : id ∈ s'.leaked ↔ id ∈ s.leaked
  next : id < s'.nextConn ↔ id < s.nextConn

section Change

variable {s s' : EvHttpClient} {l l' : Loose} {r id : ℕ} {q : RequestInfo} {k : HttpConn}

theorem Attached.change (h : s.Attached l r q id k) (hr : SameRequest s s' l l' r) (hid : SameConn s s' l l' id) :
    s'.Attached l' r q id k where
  request := hr.request.trans h.request
  conn := hid.conn.trans h.conn
  to_request := h.to_request
  to_conn := h.to_conn
  not_float := fun hmem => h.not_float (hr.float.1 hmem)
  not_pooled := fun hmem => h.not_pooled (hid.pool.1 hmem)
  incomplete := fun hcalled => h.incomplete (fun heq => hcalled (hr.called.2 heq))
  begun := h.begun
  sent_le := h.sent_le
  wire := h.wire
  watch := by rw [hid.write, hid.read]; exact h.watch
  reads := fun hread => h.reads (hid.read.symm.trans hread)

theorem RequestOK.change (h : s.RequestOK l r) (hr : SameRequest s s' l l' r)
    (hconn : ∀ {q id k}, s.Attached l r q id k → SameConn s s' l l' id) : s'.RequestOK l' r where
  lt := fun q hq => hr.next.2 (h.lt q (hr.request ▸ hq))
  link := by
    intro q hq hfloat
    obtain ⟨id, k, ha⟩ := h.link q (hr.request ▸ hq) (fun hmem => hfloat (hr.float.2 hmem))
    exact ⟨id, k, ha.change hr (hconn ha)⟩
  float := fun hmem => hr.request ▸ h.float (hr.float.1 hmem)
  timer := fun ht => (hr.timer ht).elim (fun ht' => hr.request ▸ h.timer ht') fun hsome => hsome
  settled := fun hlt => by
    rw [hr.request, hr.calledBack]
    exact h.settled (hr.next.1 hlt)
  once := fun hmem => by
    rw [hr.request, hr.next, hr.called]
    exact h.once (hr.calledBack.1 hmem)

theorem ConnOK.change (h : s.ConnOK l id) (hid : SameConn s s' l l' id)
    (hrequest : ∀ {r q k}, s.Attached l r q id k → SameRequest s s' l l' r) : s'.ConnOK l' id where
  lt := fun k hk => hid.next.2 (h.lt k (hid.conn ▸ hk))
  link := by
    intro k hk hpool hfree
    obtain ⟨r, q, ha⟩ := h.link k (hid.conn ▸ hk) (fun hmem => hpool (hid.pool.2 hmem))
      (fun heq => hfree (hid.free.2 heq))
    exact ⟨r, q, ha.change (hrequest ha) hid⟩
  free := fun hfree => by
    rw [hid.conn, hid.pool]
    exact h.free (hid.free.1 hfree)
  pooled := fun hmem => by
    rw [hid.conn, hid.write, hid.read]
    exact h.pooled (hid.pool.1 hmem)
  write := by
    rw [hid.conn, hid.write]
    exact h.write
  read := by
    rw [hid.conn, hid.read]
    exact h.read
  closed := by
    rw [hid.conn, hid.closed, hid.next, hid.leaked]
    exact h.closed
  leaked := by
    rw [hid.conn, hid.next, hid.leaked]
    exact h.leaked
  accounted := by
    rw [hid.conn, hid.closed, hid.next, hid.leaked]
    exact h.accounted

/-- **An operation on some requests and connections**: no other request is on one of these connections. -/
theorem Inv.change (h : s.Inv l) (R K : ℕ → Prop) (hpairs : ∀ {r q id k}, s.Attached l r q id k → (R r ↔ K id))
    (hR : ∀ r, ¬ R r → SameRequest s s' l l' r) (hK : ∀ id, ¬ K id → SameConn s s' l l' id)
    (hR' : ∀ r, R r → s'.RequestOK l' r) (hK' : ∀ id, K id → s'.ConnOK l' id) (hl : l'.pinned = l.pinned)
    (hpinned : ∀ p ∈ l.pinned, ¬ R p.r) (hpool : s'.connections.Nodup)
    (hle : s'.connections.length ≤ CInt.toSize s'.initNumConns) (hcalls : s'.calledBack.Nodup)
    (hclosed : s'.closed.Nodup) : s'.Inv l' := by
  refine ⟨fun r => ?_, fun id => ?_, fun p hp => ?_, hpool, hle, hcalls, hclosed⟩
  · -- a pair changes as a whole or not at all, so one that is left alone keeps its links
    by_cases hr : R r
    · exact hR' r hr
    · exact (h.requests r).change (hR r hr) fun ha => hK _ fun hid => hr ((hpairs ha).2 hid)
  · by_cases hid : K id
    · exact hK' id hid
    · exact (h.conns id).change (hK id hid) fun ha => hR _ fun hr => hid ((hpairs ha).1 hr)
  · rw [hl] at hp
    have ha := h.pinned p hp
    exact ha.change (hR _ (hpinned p hp)) (hK _ fun hid => hpinned p hp ((hpairs ha).2 hid))

/-- A request is on one connection, and a connection has one request. -/
theorem Attached.pairs (h : s.Attached l r q id k) {r' id' : ℕ} {q' : RequestInfo} {k' : HttpConn}
    (h' : s.Attached l r' q' id' k') : r' = r ↔ id' = id := by
  constructor
  · rintro rfl
    cases h.request.symm.trans h'.request
    exact Option.some.inj (h'.to_conn.symm.trans h.to_conn)
  · rintro rfl
    cases h.conn.symm.trans h'.conn
    exact Option.some.inj (h'.to_request.symm.trans h.to_request)

/-- An operation that touches no request and no connection. -/
theorem Inv.untouched (h : s.Inv l) (hR : ∀ r, SameRequest s s' l l r) (hK : ∀ id, SameConn s s' l l id)
    (hpool : s'.connections = s.connections) (hinit : s'.initNumConns = s.initNumConns)
    (hcalls : s'.calls = s.calls)
    (hclosed : s'.closed = s.closed) : s'.Inv l := by
  refine h.change (fun _ => False) (fun _ => False) (fun _ => Iff.rfl) (fun r _ => hR r) (fun id _ => hK id)
    (fun _ hr => hr.elim) (fun _ hid => hid.elim) rfl (fun _ _ hr => hr) (hpool ▸ h.pool_nodup) ?_ ?_
    (hclosed ▸ h.closed_nodup)
  · rw [hpool, hinit]
    exact h.pool_le
  · rw [calledBack, hcalls]
    exact h.calls_nodup

end Change

/-! ### What a cell can be -/

section Cells

variable {s : EvHttpClient} {l : Loose} {r id : ℕ} {q : RequestInfo} {k : HttpConn}

theorem RequestOK.live (h : s.RequestOK l r) (hq : s.requests r = some q) :
    r < s.nextRequest ∧ (r ∈ s.calledBack → l.called = some r) := by
  refine ⟨h.lt q hq, fun hmem => (h.once hmem).2.resolve_left ?_⟩
  rw [hq]
  exact Option.some_ne_none q

theorem ConnOK.live (h : s.ConnOK l id) (hk : s.conns id = some k) :
    id < s.nextConn ∧ id ∉ s.closed ∧ id ∉ s.leaked := by
  have hne : s.conns id ≠ none := by
    rw [hk]
    exact Option.some_ne_none k
  exact ⟨h.lt k hk, fun hmem => hne (h.closed hmem).2.1, fun hmem => hne (h.leaked hmem).2⟩

theorem Attached.not_loose (ha : s.Attached l r q id k) (h : s.ConnOK l id) : l.conn ≠ some id := by
  intro heq
  obtain ⟨-, k', hk', hnone⟩ := h.free heq
  cases ha.conn.symm.trans hk'
  exact absurd (ha.to_request.symm.trans hnone) (Option.some_ne_none r)

theorem Attached.requestOK (ha : s.Attached l r q id k) (hlt : r < s.nextRequest)
    (honce : r ∈ s.calledBack → l.called = some r) : s.RequestOK l r := by
  have hsome : (s.requests r).isSome := Option.isSome_of_eq_some ha.request
  refine ⟨fun _ _ => hlt, ?_, fun hmem => absurd hmem ha.not_float, fun _ => hsome, fun _ => Or.inl hsome,
    fun hmem => ⟨hlt, Or.inr (honce hmem)⟩⟩
  intro q' hq' _
  cases ha.request.symm.trans hq'
  exact ⟨id, k, ha⟩

theorem Attached.connOK (ha : s.Attached l r q id k) (hfree : l.conn ≠ some id) (hlt : id < s.nextConn)
    (hclosed : id ∉ s.closed) (hleaked : id ∉ s.leaked) : s.ConnOK l id := by
  have hsome : (s.conns id).isSome := Option.isSome_of_eq_some ha.conn
  refine ⟨fun _ _ => hlt, ?_, fun heq => absurd heq hfree, fun hmem => absurd hmem ha.not_pooled, fun _ => hsome,
    fun _ => hsome, fun hmem => absurd hmem hclosed, fun hmem => absurd hmem hleaked, fun _ => Or.inl hsome⟩
  intro k' hk' _ _
  cases ha.conn.symm.trans hk'
  exact ⟨r, q, ha⟩

/-- A request without a connection. -/
theorem RequestOK.floating (hmem : r ∈ l.requests) (hq : s.requests r = some q) (hconn : q.conn = none)
    (hlt : r < s.nextRequest) (honce : r ∈ s.calledBack → l.called = some r) : s.RequestOK l r := by
  have hsome : (s.requests r).isSome := Option.isSome_of_eq_some hq
  exact ⟨fun _ _ => hlt, fun _ _ hnot => absurd hmem hnot, fun _ => ⟨q, hq, hconn⟩, fun _ => hsome,
    fun _ => Or.inl hsome, fun hcalled => ⟨hlt, Or.inr (honce hcalled)⟩⟩

/-- A request that was called back and deleted. -/
theorem RequestOK.gone (hmem : r ∉ l.requests) (hnone : s.requests r = none) (htimer : s.timerOn r = false)
    (hlt : r < s.nextRequest) (hcalled : r ∈ s.calledBack) : s.RequestOK l r := by
  have hdead : ∀ {P : Prop} q, s.requests r = some q → P := fun q hq => by
    rw [hnone] at hq
    cases hq
  exact ⟨fun q hq => hdead q hq, fun q hq => hdead q hq, fun hfloat => absurd hfloat hmem,
    fun ht => absurd (htimer.symm.trans ht) (by decide), fun _ => Or.inr hcalled, fun _ => ⟨hlt, Or.inl hnone⟩⟩

/-- A connection without a request that is not in the pool. -/
theorem ConnOK.loose (heq : l.conn = some id) (hpool : id ∉ s.connections) (hk : s.conns id = some k)
    (hrequest : k.request = none) (hlt : id < s.nextConn) (hclosed : id ∉ s.closed) (hleaked : id ∉ s.leaked) :
    s.ConnOK l id := by
  have hsome : (s.conns id).isSome := Option.isSome_of_eq_some hk
  exact ⟨fun _ _ => hlt, fun _ _ _ hne => absurd heq hne, fun _ => ⟨hpool, k, hk, hrequest⟩,
    fun hmem => absurd hmem hpool, fun _ => hsome, fun _ => hsome, fun hmem => absurd hmem hclosed,
    fun hmem => absurd hmem hleaked, fun _ => Or.inl hsome⟩

/-- A connection in the pool. -/
theorem ConnOK.idle (hne : l.conn ≠ some id) (hpool : id ∈ s.connections) (hk : s.conns id = some k)
    (hrequest : k.request = none) (hwrite : s.writeOn id = false) (hread : s.readOn id = false)
    (hlt : id < s.nextConn)
    (hclosed : id ∉ s.closed) (hleaked : id ∉ s.leaked) : s.ConnOK l id := by
  have hsome : (s.conns id).isSome := Option.isSome_of_eq_some hk
  exact ⟨fun _ _ => hlt, fun _ _ hnot => absurd hpool hnot, fun heq => absurd heq hne,
    fun _ => ⟨k, hk, hrequest, hwrite, hread⟩, fun _ => hsome, fun _ => hsome, fun hmem => absurd hmem hclosed,
    fun hmem => absurd hmem hleaked, fun _ => Or.inl hsome⟩

/-- A connection that was deleted. Its socket was closed or leaked, and not both. -/
theorem ConnOK.gone (hne : l.conn ≠ some id) (hpool : id ∉ s.connections) (hnone : s.conns id = none)
    (hwrite : s.writeOn id = false) (hread : s.readOn id = false) (hlt : id < s.nextConn)
    (hsocket : id ∈ s.closed ∧ id ∉ s.leaked ∨ id ∉ s.closed ∧ id ∈ s.leaked) : s.ConnOK l id := by
  have hdead : ∀ {P : Prop} k, s.conns id = some k → P := fun k hk => by
    rw [hnone] at hk
    cases hk
  refine ⟨fun k hk => hdead k hk, fun k hk => hdead k hk, fun heq => absurd heq hne,
    fun hmem => absurd hmem hpool, fun hon => absurd (hwrite.symm.trans hon) (by decide),
    fun hon => absurd (hread.symm.trans hon) (by decide), ?_, ?_, ?_⟩
  · intro hmem
    exact ⟨hlt, hnone, (hsocket.resolve_right fun h => h.1 hmem).2⟩
  · exact fun _ => ⟨hlt, hnone⟩
  · exact fun _ => Or.inr (hsocket.imp And.left And.right)

/-- A connection that was not made yet. -/
theorem ConnOK.unborn (h : s.ConnOK l id) (hle : s.nextConn ≤ id) :
    s.conns id = none ∧ id ∉ s.connections ∧ s.writeOn id = false ∧ s.readOn id = false ∧ id ∉ s.closed ∧
      id ∉ s.leaked := by
  have hnone : s.conns id = none := by
    cases hk : s.conns id with
    | none => rfl
    | some k => exact absurd (h.lt k hk) (by omega)
  have hdead : ¬ (s.conns id).isSome := by rw [hnone]; decide
  refine ⟨hnone, fun hmem => ?_, ?_, ?_, fun hmem => ?_, fun hmem => ?_⟩
  · obtain ⟨k, hk, -⟩ := h.pooled hmem
    rw [hnone] at hk
    cases hk
  · exact Bool.eq_false_iff.2 fun hw => hdead (h.write hw)
  · exact Bool.eq_false_iff.2 fun hr => hdead (h.read hr)
  · exact absurd (h.closed hmem).1 (by omega)
  · exact absurd (h.leaked hmem).1 (by omega)

end Cells

/-! ### Small steps -/

section Steps

variable {s : EvHttpClient} {l : Loose} {r id : ℕ} {q : RequestInfo} {k : HttpConn}

theorem Inv.setError (h : s.Inv l) (e : Option ClientError) (timed : Bool) :
    Inv { s with lastError := e, timed := timed } l :=
  h.untouched (fun _ => ⟨rfl, Or.inl, Iff.rfl, Iff.rfl, Iff.rfl, Iff.rfl⟩)
    (fun _ => ⟨rfl, rfl, rfl, Iff.rfl, Iff.rfl, Iff.rfl, Iff.rfl, Iff.rfl⟩) rfl rfl rfl rfl

/-- A timer may run while its request is there. -/
theorem Inv.setTimer (h : s.Inv l) (on : Bool) (hon : on = true → (s.requests r).isSome) :
    Inv { s with timerOn := update s.timerOn r on } l := by
  refine h.untouched (fun r' => ⟨rfl, fun ht => ?_, Iff.rfl, Iff.rfl, Iff.rfl, Iff.rfl⟩)
    (fun _ => ⟨rfl, rfl, rfl, Iff.rfl, Iff.rfl, Iff.rfl, Iff.rfl, Iff.rfl⟩) rfl rfl rfl rfl
  by_cases hr : r' = r
  · subst hr
    exact Or.inr (hon (by simpa using ht))
  · exact Or.inl (by simpa [hr] using ht)

theorem Inv.stopTimer (h : s.Inv l) (r : ℕ) : (s.stopTimer r).Inv l :=
  h.setTimer false (fun hfalse => by cases hfalse)

/-! #### Watchers -/

theorem update_false_eq_true {f : ℕ → Bool} {a b : ℕ} (h : update f a false b = true) : f b = true := by
  rw [Function.update_apply] at h
  split at h
  · cases h
  · exact h

theorem Attached.stopWatchers (ha : s.Attached l r q id k) (id' : ℕ) : (s.stopWatchers id').Attached l r q id k :=
  { ha with
    watch := fun hw => Bool.eq_false_iff.2 fun hr => absurd (ha.watch (update_false_eq_true hw))
      (Bool.not_eq_false _ ▸ update_false_eq_true hr)
    reads := fun hr => ha.reads (update_false_eq_true hr) }

/-- Watchers may be stopped at any time. -/
theorem Inv.stopWatchers (h : s.Inv l) (id : ℕ) : (s.stopWatchers id).Inv l := by
  -- not by `Inv.change`: the connection may be of a request, pooled or loose, and each clause gets weaker
  refine ⟨fun r => ?_, fun id' => ?_, fun p hp => (h.pinned p hp).stopWatchers id, h.pool_nodup, h.pool_le,
    h.calls_nodup, h.closed_nodup⟩
  · have hok := h.requests r
    refine ⟨hok.lt, fun q hq hfloat => ?_, hok.float, hok.timer, hok.settled, hok.once⟩
    obtain ⟨id', k, ha⟩ := hok.link q hq hfloat
    exact ⟨id', k, ha.stopWatchers id⟩
  · have hok := h.conns id'
    refine ⟨hok.lt, fun k hk hpool hfree => ?_, hok.free, fun hmem => ?_,
      fun hw => hok.write (update_false_eq_true hw), fun hr => hok.read (update_false_eq_true hr), hok.closed,
      hok.leaked, hok.accounted⟩
    · obtain ⟨r, q, ha⟩ := hok.link k hk hpool hfree
      exact ⟨r, q, ha.stopWatchers id⟩
    · obtain ⟨k, hk, hrequest, hw, hr⟩ := hok.pooled hmem
      exact ⟨k, hk, hrequest, Bool.eq_false_iff.2 fun hon => Bool.eq_false_iff.1 hw (update_false_eq_true hon),
        Bool.eq_false_iff.2 fun hon => Bool.eq_false_iff.1 hr (update_false_eq_true hon)⟩

/-! #### Requests on their connections -/

/-- The request `r` and the connection `id` are changed. -/
def put (s : EvHttpClient) (r : ℕ) (q : RequestInfo) (id : ℕ) (k : HttpConn) (write read : Bool) : EvHttpClient :=
  { s with
    requests := update s.requests r (some q)
    conns := update s.conns id (some k)
    writeOn := update s.writeOn id write
    readOn := update s.readOn id read }

/-- What is asked of a request and its connection that were changed. -/
structure Fits (l : Loose) (r : ℕ) (q : RequestInfo) (id : ℕ) (k : HttpConn) (write read : Bool) : Prop where
  to_request : k.request = some r
  to_conn : q.conn = some id
  incomplete : l.called ≠ some r → k.messageComplete = false
  begun : k.headerState = .done → k.messageBegun = true
  sent_le : k.requestBytesSent ≤ q.requestString.length
  wire : k.wire = q.requestString.take k.requestBytesSent
  watch : write = true → read = false
  reads : read = true → k.requestBytesSent = q.requestString.length

theorem Attached.fits (h : s.Attached l r q id k) : Fits l r q id k (s.writeOn id) (s.readOn id) :=
  ⟨h.to_request, h.to_conn, h.incomplete, h.begun, h.sent_le, h.wire, h.watch, h.reads⟩

theorem Fits.attached {write read : Bool} (h : Fits l r q id k write read) (hfloat : r ∉ l.requests)
    (hpool : id ∉ s.connections) : (s.put r q id k write read).Attached l r q id k where
  request := Function.update_self ..
  conn := Function.update_self ..
  to_request := h.to_request
  to_conn := h.to_conn
  not_float := hfloat
  not_pooled := hpool
  incomplete := h.incomplete
  begun := h.begun
  sent_le := h.sent_le
  wire := h.wire
  watch := by simpa [put] using h.watch
  reads := by simpa [put] using h.reads

theorem sameRequest_put {l' : Loose} {write read : Bool} {r' : ℕ} (hr : r' ≠ r)
    (hfloat : r' ∈ l'.requests ↔ r' ∈ l.requests) (hcalled : l'.called = some r' ↔ l.called = some r') :
    SameRequest s (s.put r q id k write read) l l' r' :=
  ⟨Function.update_of_ne hr .., Or.inl, hfloat, hcalled, Iff.rfl, Iff.rfl⟩

theorem sameConn_put {l' : Loose} {write read : Bool} {id' : ℕ} (hid : id' ≠ id)
    (hfree : l'.conn = some id' ↔ l.conn = some id') : SameConn s (s.put r q id k write read) l l' id' :=
  ⟨Function.update_of_ne hid .., Function.update_of_ne hid .., Function.update_of_ne hid .., Iff.rfl, hfree,
    Iff.rfl, Iff.rfl, Iff.rfl⟩

/-- **A request and its connection change, and stay together.** -/
theorem Inv.put {q' : RequestInfo} {k' : HttpConn} {write read : Bool} (h : s.Inv l) (ha : s.Attached l r q id k)
    (hpin : ∀ p ∈ l.pinned, p.r ≠ r) (hfits : Fits l r q' id k' write read) :
    (s.put r q' id k' write read).Inv l ∧ (s.put r q' id k' write read).Attached l r q' id k' := by
  have ha' : (s.put r q' id k' write read).Attached l r q' id k' := hfits.attached ha.not_float ha.not_pooled
  refine ⟨?_, ha'⟩
  refine h.change (· = r) (· = id) (fun ha₁ => ha.pairs ha₁) (fun r' hr => sameRequest_put hr Iff.rfl Iff.rfl)
    (fun id' hid => sameConn_put hid Iff.rfl) ?_ ?_ rfl hpin h.pool_nodup h.pool_le h.calls_nodup h.closed_nodup
  · rintro r' rfl
    obtain ⟨hlt, honce⟩ := (h.requests r').live ha.request
    exact ha'.requestOK hlt honce
  · rintro id' rfl
    obtain ⟨hlt, hclosed, hleaked⟩ := (h.conns id').live ha.conn
    exact ha'.connOK (ha.not_loose (h.conns id')) hlt hclosed hleaked

/-- A request is made. -/
theorem Inv.newRequest (h : s.Inv l) (q : RequestInfo) (hq : q.conn = none) :
    Inv { s.setRequest s.nextRequest q with nextRequest := s.nextRequest + 1 }
      { l with requests := s.nextRequest :: l.requests } := by
  -- the number was never used, so no pair and no pin is of the new request
  have hunborn : ∀ q, s.requests s.nextRequest ≠ some q := fun q hq =>
    absurd ((h.requests s.nextRequest).lt q hq) (lt_irrefl _)
  refine h.change (· = s.nextRequest) (fun _ => False) ?_ ?_
    (fun id _ => ⟨rfl, rfl, rfl, Iff.rfl, Iff.rfl, Iff.rfl, Iff.rfl, Iff.rfl⟩) ?_
    (fun _ hfalse => hfalse.elim) rfl (fun p hp heq => hunborn p.q (heq ▸ (h.pinned p hp).request)) h.pool_nodup
    h.pool_le h.calls_nodup h.closed_nodup
  · intro r q id k ha
    refine iff_of_false ?_ fun hfalse => hfalse
    rintro rfl
    exact hunborn q ha.request
  · intro r hr
    refine ⟨Function.update_of_ne hr .., Or.inl, ?_, Iff.rfl, Iff.rfl, ?_⟩
    · simp [hr]
    · change r < s.nextRequest + 1 ↔ r < s.nextRequest
      omega
  · rintro r rfl
    refine RequestOK.floating List.mem_cons_self (Function.update_self ..) hq (Nat.lt_succ_self _) fun hmem => ?_
    exact absurd ((h.requests s.nextRequest).once hmem).1 (lt_irrefl _)

/-- A request without a connection comes to the loose connection. -/
theorem Inv.join {q' : RequestInfo} {k' : HttpConn} {fr : List ℕ} {write read : Bool}
    (h : s.Inv { l with requests := r :: fr, conn := some id }) (hr : r ∉ fr)
    (hfits : Fits l r q' id k' write read) :
    (s.put r q' id k' write read).Inv { l with requests := fr, conn := none } ∧
      (s.put r q' id k' write read).Attached { l with requests := fr, conn := none } r q' id k' := by
  obtain ⟨hpool, k, hk, hrequest⟩ := (h.conns id).free rfl
  obtain ⟨q, hq, -⟩ := (h.requests r).float List.mem_cons_self
  have hfits' : Fits { l with requests := fr, conn := none } r q' id k' write read := { hfits with }
  have ha' := hfits'.attached (s := s) hr hpool
  refine ⟨?_, ha'⟩
  refine h.change (· = r) (· = id) ?_ (fun r' hr' => sameRequest_put hr' (by simp [hr']) Iff.rfl)
    (fun id' hid => sameConn_put hid ?_) ?_ ?_ rfl
    (fun p hp heq => (h.pinned p hp).not_float (heq ▸ List.mem_cons_self)) h.pool_nodup h.pool_le h.calls_nodup
    h.closed_nodup
  · intro r' q₁ id' k₁ ha
    refine iff_of_false ?_ ?_
    · rintro rfl
      exact ha.not_float List.mem_cons_self
    · rintro rfl
      exact ha.not_loose (h.conns id') rfl
  · exact iff_of_false (by simp) fun heq => hid (Option.some.inj heq).symm
  · rintro r' rfl
    obtain ⟨hlt, honce⟩ := (h.requests r').live hq
    exact ha'.requestOK hlt honce
  · rintro id' rfl
    obtain ⟨hlt, hclosed, hleaked⟩ := (h.conns id').live hk
    exact ha'.connOK (by simp) hlt hclosed hleaked

theorem destroyConn_eq (hk : s.conns id = some k) :
    s.destroyConn id =
      some { s.stopWatchers id with conns := update s.conns id none, closed := s.closed ++ [id] } := by
  rw [EvHttpClient.destroyConn, hk]
  rfl

theorem dropConn_eq (hk : s.conns id = some k) (hq : s.requests r = some q) :
    s.dropConn r id =
      some ({ s.stopWatchers id with conns := update s.conns id none, closed := s.closed ++ [id] }.setRequest r
        { q with conn := none }) := by
  have hq' : { s.stopWatchers id with conns := update s.conns id none, closed := s.closed ++ [id] }.requests r =
      some q := hq
  rw [EvHttpClient.dropConn, destroyConn_eq hk, Option.bind_eq_bind, Option.bind_some, hq']
  rfl

theorem nodup_append_singleton {ids : List ℕ} (h : ids.Nodup) (hid : id ∉ ids) : (ids ++ [id]).Nodup :=
  List.concat_eq_append ▸ List.Nodup.concat hid h

/-- **The connection of a request is destroyed.** -/
theorem Inv.dropConn (h : s.Inv l) (ha : s.Attached l r q id k) (hpin : ∀ p ∈ l.pinned, p.r ≠ r) :
    ∃ s', s.dropConn r id = some s' ∧ s'.Inv { l with requests := r :: l.requests } ∧
      s'.requests r = some { q with conn := none } ∧ s'.connections = s.connections := by
  obtain ⟨hlt, hclosed, hleaked⟩ := (h.conns id).live ha.conn
  refine ⟨_, dropConn_eq ha.conn ha.request, ?_, Function.update_self .., rfl⟩
  refine h.change (· = r) (· = id) (fun ha₁ => ha.pairs ha₁) ?_ ?_ ?_ ?_ rfl hpin h.pool_nodup h.pool_le
    h.calls_nodup ?_
  · intro r' hr
    exact ⟨Function.update_of_ne hr .., Or.inl, by simp [hr], Iff.rfl, Iff.rfl, Iff.rfl⟩
  · intro id' hid
    exact ⟨Function.update_of_ne hid .., Function.update_of_ne hid .., Function.update_of_ne hid .., Iff.rfl,
      Iff.rfl, by simp [setRequest, hid], Iff.rfl, Iff.rfl⟩
  · rintro r' rfl
    obtain ⟨hlt, honce⟩ := (h.requests r').live ha.request
    exact RequestOK.floating List.mem_cons_self (Function.update_self ..) rfl hlt honce
  · rintro id' rfl
    exact ConnOK.gone (ha.not_loose (h.conns id')) ha.not_pooled (Function.update_self ..)
      (Function.update_self ..) (Function.update_self ..) hlt (Or.inl ⟨by simp [setRequest], hleaked⟩)
  · exact nodup_append_singleton h.closed_nodup hclosed

/-! #### Callbacks of the user -/

theorem Attached.recorded (ha : s.Attached l r q id k) (hl : l.called = none) (calls : List (ℕ × Delivery))
    (called : Option ℕ) : Attached { s with calls := calls } { l with called := called } r q id k :=
  { ha with incomplete := fun _ => ha.incomplete (by rw [hl]; exact nofun) }

/-- **A request is called back, for the first time.** -/
theorem Inv.record (h : s.Inv l) (hl : l.called = none) (hq : s.requests r = some q) (d : Delivery) :
    Inv { s with calls := s.calls ++ [(r, d)] } { l with called := some r } := by
  have hnone : ∀ r', l.called ≠ some r' := fun r' => by
    rw [hl]
    exact nofun
  have hcalled : calledBack { s with calls := s.calls ++ [(r, d)] } = s.calledBack ++ [r] := by simp [calledBack]
  have hmem : ∀ r', r' ∈ calledBack { s with calls := s.calls ++ [(r, d)] } ↔ r' ∈ s.calledBack ∨ r' = r :=
    fun r' => by
    rw [hcalled, List.mem_append, List.mem_singleton]
  -- not by `Inv.change`, which would have to know if the request has a connection
  refine ⟨fun r' => ?_, fun id => ?_, fun p hp => (h.pinned p hp).recorded hl _ _, h.pool_nodup, h.pool_le, ?_,
    h.closed_nodup⟩
  · have hok := h.requests r'
    refine ⟨hok.lt, ?_, hok.float, hok.timer,
      fun hlt => (hok.settled hlt).imp_right fun hin => (hmem r').2 (Or.inl hin), ?_⟩
    · intro q' hq' hfloat
      obtain ⟨id, k, ha⟩ := hok.link q' hq' hfloat
      exact ⟨id, k, ha.recorded hl _ _⟩
    · intro hin
      rcases (hmem r').1 hin with hin | rfl
      · exact ⟨(hok.once hin).1, Or.inl ((hok.once hin).2.resolve_right (hnone r'))⟩
      · exact ⟨hok.lt q hq, Or.inr rfl⟩
  · have hok := h.conns id
    refine ⟨hok.lt, ?_, hok.free, hok.pooled, hok.write, hok.read, hok.closed, hok.leaked, hok.accounted⟩
    intro k hk hpool hfree
    obtain ⟨r', q', ha⟩ := hok.link k hk hpool hfree
    exact ⟨r', q', ha.recorded hl _ _⟩
  · -- a request that is still there was not called back before
    rw [hcalled]
    exact nodup_append_singleton h.calls_nodup fun hin => hnone r (((h.requests r).live hq).2 hin)

/-- A request that was called back is deleted. -/
theorem Inv.deleteCalled {pin : Option Pin} (h : s.Inv { called := some r, requests := [r], pinned := pin })
    (htimer : s.timerOn r = false) (hcalled : r ∈ s.calledBack) : (s.deleteRequest r).Inv { pinned := pin } := by
  refine h.change (· = r) (fun _ => False) ?_ ?_
    (fun id _ => ⟨rfl, rfl, rfl, Iff.rfl, Iff.rfl, Iff.rfl, Iff.rfl, Iff.rfl⟩) ?_
    (fun _ hfalse => hfalse.elim) rfl (fun p hp heq => (h.pinned p hp).not_float (heq ▸ List.mem_cons_self))
    h.pool_nodup h.pool_le h.calls_nodup h.closed_nodup
  · intro r' q id k ha
    refine iff_of_false ?_ fun hfalse => hfalse
    rintro rfl
    exact ha.not_float List.mem_cons_self
  · intro r' hr
    exact ⟨Function.update_of_ne hr .., Or.inl, by simp [hr], by simpa using Ne.symm hr, Iff.rfl, Iff.rfl⟩
  · rintro r' rfl
    exact RequestOK.gone (by simp) (Function.update_self ..) htimer ((h.requests r').once hcalled).1 hcalled

/-- A request that was called back is deleted, and its connection stays. -/
theorem Inv.detach {c : HttpConn} {pin : Option Pin} (h : s.Inv { called := some r, pinned := pin })
    (ha : s.Attached { called := some r, pinned := pin } r q id k) (hpin : ∀ p ∈ pin, p.r ≠ r)
    (htimer : s.timerOn r = false) (hcalled : r ∈ s.calledBack) (hk' : c.request = none) :
    ((s.deleteRequest r).setConn id c).Inv { conn := some id, pinned := pin } := by
  refine h.change (· = r) (· = id) (fun ha₁ => ha.pairs ha₁) ?_ ?_ ?_ ?_ rfl hpin h.pool_nodup h.pool_le
    h.calls_nodup h.closed_nodup
  · intro r' hr
    exact ⟨Function.update_of_ne hr .., Or.inl, Iff.rfl, by simpa using Ne.symm hr, Iff.rfl, Iff.rfl⟩
  · intro id' hid
    exact ⟨Function.update_of_ne hid .., rfl, rfl, Iff.rfl, by simpa using Ne.symm hid, Iff.rfl, Iff.rfl, Iff.rfl⟩
  · rintro r' rfl
    exact RequestOK.gone (by simp) (Function.update_self ..) htimer ((h.requests r').once hcalled).1 hcalled
  · rintro id' rfl
    obtain ⟨hlt, hclosed, hleaked⟩ := (h.conns id').live ha.conn
    exact ConnOK.loose rfl ha.not_pooled (Function.update_self ..) hk' hlt hclosed hleaked

/-! #### Connections without a request -/

/-- A connection that was just made or taken from the pool. -/
def Fresh (s : EvHttpClient) (id : ℕ) : Prop :=
  (∃ isNew, s.conns id = some { isNew := isNew }) ∧ s.writeOn id = false ∧ s.readOn id = false

/-- An operation on the connection `id`, which has no request before and behind it. -/
theorem Inv.changeConn {s' : EvHttpClient} {l' : Loose} (h : s.Inv l)
    (hfree : ∀ k, s.conns id = some k → k.request = none) (hR : ∀ r, SameRequest s s' l l' r)
    (hK : ∀ id', id' ≠ id → SameConn s s' l l' id') (hid : s'.ConnOK l' id) (hl : l'.pinned = l.pinned)
    (hpool : s'.connections.Nodup) (hle : s'.connections.length ≤ CInt.toSize s'.initNumConns)
    (hcalls : s'.calls = s.calls) (hclosed : s'.closed.Nodup) : s'.Inv l' := by
  refine h.change (fun _ => False) (· = id) ?_ (fun r _ => hR r) hK (fun _ hfalse => hfalse.elim) ?_ hl
    (fun _ _ hfalse => hfalse) hpool hle ?_ hclosed
  · intro r q id' k ha
    refine iff_of_false (fun hfalse => hfalse) ?_
    rintro rfl
    exact absurd (ha.to_request.symm.trans (hfree k ha.conn)) (Option.some_ne_none r)
  · rintro id' rfl
    exact hid
  · rw [calledBack, hcalls]
    exact h.calls_nodup

theorem Inv.createConn (h : s.Inv l) (hl : l.conn = none) :
    ((s.createConn .connects).2.Inv { l with conn := some s.nextConn }) ∧
      (s.createConn .connects).2.Fresh s.nextConn := by
  obtain ⟨hnone, hpool, hw, hr, hclosed, hleaked⟩ := (h.conns s.nextConn).unborn le_rfl
  have hconn : (s.createConn .connects).2.conns s.nextConn = some {} := Function.update_self ..
  refine ⟨?_, ⟨true, hconn⟩, hw, hr⟩
  refine h.changeConn (fun k hk => absurd (hnone.symm.trans hk) nofun)
    (fun r => ⟨rfl, Or.inl, Iff.rfl, Iff.rfl, Iff.rfl, Iff.rfl⟩) ?_ ?_ rfl h.pool_nodup h.pool_le rfl
    h.closed_nodup
  · intro id hid
    refine ⟨Function.update_of_ne hid .., rfl, rfl, Iff.rfl, ?_, Iff.rfl, Iff.rfl, ?_⟩
    · rw [hl]
      exact iff_of_false (fun heq => hid (Option.some.inj heq).symm) nofun
    · change id < s.nextConn + 1 ↔ id < s.nextConn
      omega
  · exact ConnOK.loose rfl hpool hconn rfl (Nat.lt_succ_self _) hclosed hleaked

theorem Inv.connectFails (h : s.Inv l) (hl : l.conn = none) (errno : ℤ) :
    (s.createConn (.connectFails errno)).2.Inv l := by
  obtain ⟨hnone, hpool, hw, hr, hclosed, hleaked⟩ := (h.conns s.nextConn).unborn le_rfl
  refine h.changeConn (fun k hk => absurd (hnone.symm.trans hk) nofun)
    (fun r => ⟨rfl, Or.inl, Iff.rfl, Iff.rfl, Iff.rfl, Iff.rfl⟩) ?_ ?_ rfl h.pool_nodup h.pool_le rfl
    h.closed_nodup
  · intro id hid
    refine ⟨rfl, rfl, rfl, Iff.rfl, Iff.rfl, Iff.rfl, ?_, ?_⟩
    · simp [EvHttpClient.createConn, hid]
    · change id < s.nextConn + 1 ↔ id < s.nextConn
      omega
  · refine ConnOK.gone ?_ hpool hnone hw hr (Nat.lt_succ_self _)
      (Or.inr ⟨hclosed, by simp [EvHttpClient.createConn]⟩)
    rw [hl]
    exact nofun

/-- The front of the pool is taken. -/
theorem Inv.pop {rest : List ℕ} (h : s.Inv l) (hl : l.conn = none) (hpool : s.connections = id :: rest) :
    Inv { s with connections := rest } { l with conn := some id } ∧
      ∃ k, s.conns id = some k ∧ k.request = none ∧ s.writeOn id = false ∧ s.readOn id = false := by
  obtain ⟨k, hk, hrequest, hw, hr⟩ := (h.conns id).pooled (hpool ▸ List.mem_cons_self)
  obtain ⟨hlt, hclosed, hleaked⟩ := (h.conns id).live hk
  have hnodup : (id :: rest).Nodup := hpool ▸ h.pool_nodup
  have hle : (id :: rest).length ≤ CInt.toSize s.initNumConns := hpool ▸ h.pool_le
  refine ⟨?_, k, hk, hrequest, hw, hr⟩
  refine h.changeConn (fun k' hk' => by cases hk.symm.trans hk'; exact hrequest)
    (fun r => ⟨rfl, Or.inl, Iff.rfl, Iff.rfl, Iff.rfl, Iff.rfl⟩) ?_ ?_ rfl
    (List.nodup_cons.1 hnodup).2 ?_ rfl h.closed_nodup
  · intro id' hid
    refine ⟨rfl, rfl, rfl, ?_, ?_, Iff.rfl, Iff.rfl, Iff.rfl⟩
    · rw [hpool]
      simp [hid]
    · rw [hl]
      exact iff_of_false (fun heq => hid (Option.some.inj heq).symm) nofun
  · exact ConnOK.loose rfl (List.nodup_cons.1 hnodup).1 hk hrequest hlt hclosed hleaked
  · exact (Nat.le_succ _).trans hle

/-- The loose connection is changed. -/
theorem Inv.setLoose {c : HttpConn} (h : s.Inv l) (hl : l.conn = some id) (hk' : c.request = none)
    (write read : Bool) :
    Inv { s with
      conns := update s.conns id (some c), writeOn := update s.writeOn id write,
        readOn := update s.readOn id read } l := by
  obtain ⟨hpool, k, hk, hrequest⟩ := (h.conns id).free hl
  obtain ⟨hlt, hclosed, hleaked⟩ := (h.conns id).live hk
  refine h.changeConn (fun k₁ hk₁ => by cases hk.symm.trans hk₁; exact hrequest)
    (fun r => ⟨rfl, Or.inl, Iff.rfl, Iff.rfl, Iff.rfl, Iff.rfl⟩) ?_ ?_ rfl h.pool_nodup h.pool_le rfl
    h.closed_nodup
  · intro id' hid
    exact ⟨Function.update_of_ne hid .., Function.update_of_ne hid .., Function.update_of_ne hid .., Iff.rfl,
      Iff.rfl, Iff.rfl, Iff.rfl, Iff.rfl⟩
  · exact ConnOK.loose hl hpool (Function.update_self ..) hk' hlt hclosed hleaked

/-- The loose connection is destroyed. -/
theorem Inv.destroyLoose (h : s.Inv l) (hl : l.conn = some id) :
    ∃ s', s.destroyConn id = some s' ∧ s'.Inv { l with conn := none } := by
  obtain ⟨hpool, k, hk, hrequest⟩ := (h.conns id).free hl
  obtain ⟨hlt, hclosed, hleaked⟩ := (h.conns id).live hk
  refine ⟨_, destroyConn_eq hk, ?_⟩
  refine h.changeConn (fun k₁ hk₁ => by cases hk.symm.trans hk₁; exact hrequest)
    (fun r => ⟨rfl, Or.inl, Iff.rfl, Iff.rfl, Iff.rfl, Iff.rfl⟩) ?_ ?_ rfl h.pool_nodup h.pool_le rfl ?_
  · intro id' hid
    refine ⟨Function.update_of_ne hid .., Function.update_of_ne hid .., Function.update_of_ne hid .., Iff.rfl, ?_,
      by simp [hid], Iff.rfl, Iff.rfl⟩
    rw [hl]
    exact iff_of_false nofun fun heq => hid (Option.some.inj heq).symm
  · exact ConnOK.gone nofun hpool (Function.update_self ..) (Function.update_self ..)
      (Function.update_self ..) hlt (Or.inl ⟨by simp, hleaked⟩)
  · exact nodup_append_singleton h.closed_nodup hclosed

/-- The loose connection goes to the pool. -/
theorem Inv.push (h : s.Inv l) (hl : l.conn = some id) (hw : s.writeOn id = false) (hr : s.readOn id = false)
    (hlen : s.connections.length < CInt.toSize s.initNumConns) :
    Inv { s with connections := s.connections ++ [id] } { l with conn := none } := by
  obtain ⟨hpool, k, hk, hrequest⟩ := (h.conns id).free hl
  obtain ⟨hlt, hclosed, hleaked⟩ := (h.conns id).live hk
  refine h.changeConn (fun k₁ hk₁ => by cases hk.symm.trans hk₁; exact hrequest)
    (fun r => ⟨rfl, Or.inl, Iff.rfl, Iff.rfl, Iff.rfl, Iff.rfl⟩) ?_ ?_ rfl ?_ ?_ rfl h.closed_nodup
  · intro id' hid
    refine ⟨rfl, rfl, rfl, by simp [hid], ?_, Iff.rfl, Iff.rfl, Iff.rfl⟩
    rw [hl]
    exact iff_of_false nofun fun heq => hid (Option.some.inj heq).symm
  · exact ConnOK.idle nofun (by simp) hk hrequest hw hr hlt hclosed hleaked
  · exact nodup_append_singleton h.pool_nodup hpool
  · change (s.connections ++ [id]).length ≤ _
    rw [List.length_append]
    exact hlen

end Steps

end EvHttpClient

end Spigeon
