import Spigeon.Lib.Lts
import Spigeon.Proof.HttpInv

/-!
# Requests of the HTTP client

What each function of `EvHttpClient` does to the invariant, from the calls of the user up to the events of the
loop, and what follows for whole runs: every request is called back once (`run_accounted`), and the destructor
frees everything exactly if none is waiting (`destroy_clean_iff`).

A callback of the user may make requests itself, so that a function comes back to a client with other requests
in it. What it held before is still there (`Keeps`).
-/

namespace Spigeon

namespace EvHttpClient

open Function (update)

/-! ### Calls of the user -/

/-- What a call of the user leaves alone: the requests that were there, and the connections they are on. -/
structure Keeps (s s' : EvHttpClient) : Prop where
  requests : ∀ r, r < s.nextRequest → s'.requests r = s.requests r ∧ s'.timerOn r = s.timerOn r
  conns : ∀ id, id < s.nextConn → id ∉ s.connections →
    s'.conns id = s.conns id ∧ s'.writeOn id = s.writeOn id ∧ s'.readOn id = s.readOn id ∧ id ∉ s'.connections
  nextRequest : s.nextRequest ≤ s'.nextRequest
  nextConn : s.nextConn ≤ s'.nextConn
  calls : s'.calls = s.calls

section Calls

variable {s s' : EvHttpClient} {l : Loose} {r id : ℕ} {q : RequestInfo} {k : HttpConn} {called : Option ℕ}
    {fr : List ℕ} {pin : Option Pin}

theorem Keeps.refl (s : EvHttpClient) : s.Keeps s :=
  ⟨fun _ _ => ⟨rfl, rfl⟩, fun _ _ hid => ⟨rfl, rfl, rfl, hid⟩, le_rfl, le_rfl, rfl⟩

theorem Keeps.trans {s'' : EvHttpClient} (h : s.Keeps s') (h' : s'.Keeps s'') : s.Keeps s'' where
  requests := fun r hr => by
    obtain ⟨hq, ht⟩ := h'.requests r (hr.trans_le h.nextRequest)
    exact ⟨hq.trans (h.requests r hr).1, ht.trans (h.requests r hr).2⟩
  conns := fun id hlt hid => by
    obtain ⟨hk, hw, hr, hpool⟩ := h.conns id hlt hid
    obtain ⟨hk', hw', hr', hpool'⟩ := h'.conns id (hlt.trans_le h.nextConn) hpool
    exact ⟨hk'.trans hk, hw'.trans hw, hr'.trans hr, hpool'⟩
  nextRequest := h.nextRequest.trans h'.nextRequest
  nextConn := h.nextConn.trans h'.nextConn
  calls := h'.calls.trans h.calls

theorem Keeps.attached (h : s.Keeps s') (hinv : s.Inv l) (ha : s.Attached l r q id k) :
    s'.Attached l r q id k := by
  obtain ⟨hq, -⟩ := h.requests r ((hinv.requests r).lt q ha.request)
  obtain ⟨hk, hw, hr, hpool⟩ := h.conns id ((hinv.conns id).lt k ha.conn) ha.not_pooled
  exact { ha with
    request := hq.trans ha.request
    conn := hk.trans ha.conn
    not_pooled := hpool
    watch := by rw [hw, hr]; exact ha.watch
    reads := fun hread => ha.reads (hr.symm.trans hread) }

/-- A connection that no request is on: it is in the pool, or new. -/
theorem Inv.getConn (h : s.Inv { called := called, requests := fr, pinned := pin }) (dial : Dial) :
    ∃ conn s', s.getConn dial = some (conn, s') ∧ s.Keeps s' ∧ s'.nextRequest = s.nextRequest ∧
      ((conn = none ∧ s.connections = [] ∧ dial ≠ .connects) ∧
          s'.Inv { called := called, requests := fr, pinned := pin } ∨
        ∃ id, conn = some id ∧ s'.Inv { called := called, requests := fr, conn := some id, pinned := pin } ∧
          s'.Fresh id ∧ (id < s.nextConn → id ∈ s.connections)) := by
  cases hpool : s.connections with
  | nil =>
    have hget : s.getConn dial = some (s.createConn dial) := by rw [EvHttpClient.getConn, hpool]
    cases dial with
    | socketFails errno =>
      exact ⟨_, _, hget, ⟨fun _ _ => ⟨rfl, rfl⟩, fun _ _ hid => ⟨rfl, rfl, rfl, hid⟩, le_rfl, le_rfl, rfl⟩, rfl,
        Or.inl ⟨⟨rfl, rfl, by simp⟩, h.setError _ _⟩⟩
    | connectFails errno =>
      exact ⟨_, _, hget, ⟨fun _ _ => ⟨rfl, rfl⟩, fun _ _ hid => ⟨rfl, rfl, rfl, hid⟩, le_rfl, Nat.le_succ _, rfl⟩,
        rfl, Or.inl ⟨⟨rfl, rfl, by simp⟩, h.connectFails rfl errno⟩⟩
    | connects =>
      obtain ⟨hinv, hfresh⟩ := h.createConn rfl
      refine ⟨_, _, hget, ⟨fun _ _ => ⟨rfl, rfl⟩, fun id hlt hid => ⟨?_, rfl, rfl, hid⟩, le_rfl, Nat.le_succ _,
        rfl⟩, rfl, Or.inr ⟨_, rfl, hinv, hfresh, fun hlt => absurd hlt (lt_irrefl _)⟩⟩
      exact Function.update_of_ne hlt.ne ..
  | cons id rest =>
    obtain ⟨hinv, k, hk, hrequest, hw, hr⟩ := h.pop rfl hpool
    have hget : s.getConn dial =
        some (some id, { s with connections := rest }.setConn id { isNew := false }) := by
      rw [EvHttpClient.getConn, hpool]
      simp only [resetState, hk, hrequest, bind, Option.bind]
    -- `setLoose` puts the watchers too, but they are off in the pool already
    have hset := hinv.setLoose (c := { isNew := false }) rfl rfl false false
    have hw' : update s.writeOn id false = s.writeOn := Function.update_eq_self_iff.2 hw.symm
    have hr' : update s.readOn id false = s.readOn := Function.update_eq_self_iff.2 hr.symm
    have hsame : { s with
        connections := rest, conns := update s.conns id (some { isNew := false }),
        writeOn := update s.writeOn id false, readOn := update s.readOn id false } =
          { s with connections := rest }.setConn id { isNew := false } := by
      rw [setConn, hw', hr']
    rw [hsame] at hset
    refine ⟨_, _, hget, ⟨fun _ _ => ⟨rfl, rfl⟩, fun id' hlt hid => ?_, le_rfl, le_rfl, rfl⟩, rfl,
      Or.inr ⟨_, rfl, hset, ⟨⟨false, Function.update_self ..⟩, hw, hr⟩, fun _ => List.mem_cons_self⟩⟩
    rw [hpool, List.mem_cons, not_or] at hid
    exact ⟨Function.update_of_ne hid.1 .., rfl, rfl, hid.2⟩

theorem attach_eq (hq : s.requests r = some q) (hk : s.conns id = some k) (hr : s.readOn id = false) :
    s.attach r id = some (s.put r { q with conn := some id } id { k with request := some r } true false) := by
  have hr' : update s.readOn id false = s.readOn := Function.update_eq_self_iff.2 hr.symm
  rw [EvHttpClient.attach, hq, hk, put, hr']
  rfl

/-- A request without a connection is attached to a fresh one. -/
theorem Inv.attach (h : s.Inv { called := called, requests := r :: fr, conn := some id, pinned := pin })
    (hr : r ∉ fr) (hfresh : s.Fresh id) :
    ∃ q k, s.attach r id = some (s.put r q id k true false) ∧
      (s.put r q id k true false).Inv { called := called, requests := fr, pinned := pin } ∧
      (s.put r q id k true false).Attached { called := called, requests := fr, pinned := pin } r q id k := by
  obtain ⟨q, hq, -⟩ := (h.requests r).float List.mem_cons_self
  obtain ⟨⟨isNew, hk⟩, -, hread⟩ := hfresh
  have hfits : Fits { called := called, requests := fr, pinned := pin } r { q with conn := some id } id
      { isNew := isNew, request := some r } true false :=
    ⟨rfl, rfl, fun _ => rfl, by simp, Nat.zero_le _, by simp, fun _ => rfl, by simp⟩
  exact ⟨_, _, attach_eq hq hk hread, h.join hr hfits⟩

theorem keeps_setError (e : Option ClientError) (timed : Bool) :
    s.Keeps { s with lastError := e, timed := timed } :=
  ⟨fun _ _ => ⟨rfl, rfl⟩, fun _ _ hid => ⟨rfl, rfl, rfl, hid⟩, le_rfl, le_rfl, rfl⟩

/-- **`makeRequest`**: the new request is on a connection that no other one is on. -/
theorem Inv.makeRequest (h : s.Inv { called := called, requests := fr, pinned := pin }) (cb : Callback)
    (requestString : List UInt8) (dial : Dial) : ∃ c s', s.makeRequest cb requestString dial = some (c, s') ∧
      s'.Inv { called := called, requests := fr, pinned := pin } ∧ s.Keeps s' := by
  obtain ⟨conn, s₁, hget, hkeeps, hnext, ⟨⟨rfl, -⟩, hinv⟩ | ⟨id, rfl, hinv, hfresh, hold⟩⟩ :=
    (h.setError none s.timed).getConn dial
  · refine ⟨-1, s₁, ?_, hinv, (keeps_setError _ _).trans hkeeps⟩
    rw [EvHttpClient.makeRequest, hget]
    rfl
  · have hnew : s₁.nextRequest ∉ fr := fun hmem => by
      obtain ⟨q, hq, -⟩ := (hinv.requests s₁.nextRequest).float hmem
      exact absurd ((hinv.requests s₁.nextRequest).lt q hq) (lt_irrefl _)
    obtain ⟨q, k, hattach, hinv', ha⟩ :=
      (hinv.newRequest { conn := none, cb := cb, requestString := requestString } rfl).attach hnew hfresh
    -- the loose connection was in the pool or is new, so that the requests there were are not on it
    have hother : ∀ id', id' < s.nextConn → id' ∉ s.connections → id' ≠ id := by
      rintro id' hlt hid rfl
      exact hid (hold hlt)
    have hold' : ∀ r, r < s.nextRequest → r ≠ s₁.nextRequest := fun r hlt => by
      rw [hnext]
      exact hlt.ne
    set s₂ := { s₁.setRequest s₁.nextRequest { conn := none, cb := cb, requestString := requestString } with
      nextRequest := s₁.nextRequest + 1 } with hs₂
    have hkeeps₁ := (keeps_setError (s := s) none s.timed).trans hkeeps
    refine ⟨0, _, by rw [EvHttpClient.makeRequest, hget]; simp only [bind, Option.bind]; rw [← hs₂, hattach], ?_,
      ?_⟩
    · split
      · exact hinv'.setTimer true fun _ => Option.isSome_of_eq_some ha.request
      · exact hinv'
    · have hrest : s.Keeps (s₂.put s₁.nextRequest q id k true false) := by
        refine ⟨fun r hr => ?_, fun id' hlt hid => ?_, hkeeps₁.nextRequest.trans (Nat.le_succ _),
          hkeeps₁.nextConn, hkeeps₁.calls⟩
        · have hput : (s₂.put s₁.nextRequest q id k true false).requests r = s₁.requests r :=
            (Function.update_of_ne (hold' r hr) ..).trans (Function.update_of_ne (hold' r hr) ..)
          exact ⟨hput.trans (hkeeps₁.requests r hr).1, (hkeeps₁.requests r hr).2⟩
        · obtain ⟨hk, hw, hr, hpool⟩ := hkeeps₁.conns id' hlt hid
          have hne := hother id' hlt hid
          exact ⟨(Function.update_of_ne hne ..).trans hk, (Function.update_of_ne hne ..).trans hw,
            (Function.update_of_ne hne ..).trans hr, hpool⟩
      split
      · refine ⟨fun r hr => ⟨(hrest.requests r hr).1, ?_⟩, hrest.conns, hrest.nextRequest, hrest.nextConn,
          hrest.calls⟩
        exact (Function.update_of_ne (hold' r hr) ..).trans (hrest.requests r hr).2
      · exact hrest

theorem Inv.userCall (h : s.Inv { called := called, requests := fr, pinned := pin }) (u : UserCall) :
    ∃ s', s.userCall u = some s' ∧ s'.Inv { called := called, requests := fr, pinned := pin } ∧ s.Keeps s' := by
  cases u with
  | makeRequest cb requestString dial =>
    obtain ⟨c, s', hmake, hinv, hkeeps⟩ := h.makeRequest cb requestString dial
    exact ⟨s', by rw [EvHttpClient.userCall, hmake]; rfl, hinv, hkeeps⟩
  | setTimeout timed => exact ⟨_, rfl, h.setError none timed, keeps_setError none timed⟩

theorem Inv.userCalls (h : s.Inv { called := called, requests := fr, pinned := pin }) (us : List UserCall) :
    ∃ s', us.foldlM EvHttpClient.userCall s = some s' ∧
      s'.Inv { called := called, requests := fr, pinned := pin } ∧ s.Keeps s' := by
  induction us generalizing s with
  | nil => exact ⟨s, rfl, h, Keeps.refl s⟩
  | cons u us ih =>
    obtain ⟨s₁, hcall, hinv, hkeeps⟩ := h.userCall u
    obtain ⟨s₂, hcalls, hinv₂, hkeeps₂⟩ := ih hinv
    refine ⟨s₂, ?_, hinv₂, hkeeps.trans hkeeps₂⟩
    rw [List.foldlM_cons, hcall]
    exact hcalls

/-- A callback that is there makes its calls. -/
theorem callback_eq (hq : s.requests r = some q) (hcb : q.cb ≠ .null) (d : Delivery) (again : List UserCall) :
    s.callback r d again = (if q.cb = .noOp then [] else again).foldlM EvHttpClient.userCall
      { s with calls := s.calls ++ [(r, d)] } := by
  rw [EvHttpClient.callback, hq, Option.bind_eq_bind, Option.bind_some]
  cases h : q.cb with
  | null => exact absurd h hcb
  | noOp => rfl
  | user => rfl

/-- One that is not there does not. -/
theorem callback_null (hq : s.requests r = some q) (hcb : q.cb = .null) (d : Delivery) (again : List UserCall) :
    s.callback r d again = none := by
  rw [EvHttpClient.callback, hq, Option.bind_eq_bind, Option.bind_some, hcb]

/-- **A callback of the user**, which may make new requests. -/
theorem Inv.callback (h : s.Inv { requests := fr, pinned := pin }) (hq : s.requests r = some q)
    (hcb : q.cb ≠ .null) (d : Delivery) (again : List UserCall) :
    ∃ s', s.callback r d again = some s' ∧ s'.Inv { called := some r, requests := fr, pinned := pin } ∧
      Keeps { s with calls := s.calls ++ [(r, d)] } s' ∧ r ∈ s'.calledBack := by
  obtain ⟨s', hcalls, hinv, hkeeps⟩ := (h.record rfl hq d).userCalls (if q.cb = .noOp then [] else again)
  refine ⟨s', (callback_eq hq hcb d again).trans hcalls, hinv, hkeeps, ?_⟩
  rw [calledBack, hkeeps.calls]
  simp

/-- The callback of a request without a connection, which is deleted behind it. -/
theorem Inv.finish (h : s.Inv { requests := [r], pinned := pin }) (htimer : s.timerOn r = false)
    (hq : s.requests r = some q) (hcb : q.cb ≠ .null) (d : Delivery) (again : List UserCall) : ∃ s',
      (s.callback r d again).bind (fun s => (s.requests r).bind fun _ => some (s.deleteRequest r)) = some s' ∧
        s'.Inv { pinned := pin } := by
  obtain ⟨s₁, hcallback, hinv, hkeeps, hmem⟩ := h.callback hq hcb d again
  obtain ⟨hq₁, ht₁⟩ := hkeeps.requests r ((h.requests r).lt q hq)
  refine ⟨_, ?_, hinv.deleteCalled (ht₁.trans htimer) hmem⟩
  rw [hcallback, Option.bind_some, hq₁.trans hq, Option.bind_some]

theorem Inv.finalizeTimeout (h : s.Inv { requests := [r], pinned := pin }) (hq : s.requests r = some q)
    (hcb : q.cb ≠ .null) (again : List UserCall) :
    ∃ s', s.finalizeTimeout r again = some s' ∧ s'.Inv { pinned := pin } := by
  have hq' : (s.stopTimer r).requests r = some q := hq
  obtain ⟨s', hfinish, hinv⟩ := (h.stopTimer r).finish (Function.update_self ..) hq' hcb
    (.response { q.response with timeout := true, code := 0 }) again
  refine ⟨s', ?_, hinv⟩
  rw [EvHttpClient.finalizeTimeout, Option.bind_eq_bind, hq', Option.bind_some]
  exact hfinish

theorem finalizeTimeout_null (hq : s.requests r = some q) (hcb : q.cb = .null) (again : List UserCall) :
    s.finalizeTimeout r again = none := by
  have hq' : (s.stopTimer r).requests r = some q := hq
  rw [EvHttpClient.finalizeTimeout, Option.bind_eq_bind, hq', Option.bind_some]
  exact congrArg (Option.bind · _) (callback_null hq' hcb _ again)

theorem Inv.finalizeError (h : s.Inv { requests := [r], pinned := pin }) (hq : s.requests r = some q)
    (hcb : q.cb ≠ .null) (again : List UserCall) :
    ∃ s', s.finalizeError r again = some s' ∧ s'.Inv { pinned := pin } := by
  set e := (s.stopTimer r).lastError.getD .unknown with he
  have hq' : { s.stopTimer r with lastError := some e }.requests r = some q := hq
  obtain ⟨s', hfinish, hinv⟩ := ((h.stopTimer r).setError (some e) s.timed).finish
    (Function.update_self ..) hq' hcb (.error e) again
  refine ⟨s', ?_, hinv⟩
  rw [EvHttpClient.finalizeError, Option.bind_eq_bind, ← he, hq', Option.bind_some]
  exact hfinish

theorem finalizeError_null (hq : s.requests r = some q) (hcb : q.cb = .null) (again : List UserCall) :
    s.finalizeError r again = none := by
  set e := (s.stopTimer r).lastError.getD .unknown with he
  have hq' : { s.stopTimer r with lastError := some e }.requests r = some q := hq
  rw [EvHttpClient.finalizeError, Option.bind_eq_bind, ← he, hq', Option.bind_some]
  exact congrArg (Option.bind · _) (callback_null hq' hcb (.error e) again)

theorem Inv.retryRequest (h : s.Inv { requests := [r], pinned := pin }) (hq : s.requests r = some q)
    (hconn : q.conn = none) {dial : Dial} (hcb : q.cb = .null → s.connections ≠ [] ∨ dial = .connects)
    (again : List UserCall) : ∃ s', s.retryRequest r dial again = some s' ∧ s'.Inv { pinned := pin } := by
  obtain ⟨conn, s₁, hget, hkeeps, -, ⟨⟨rfl, hpool, hdial⟩, hinv⟩ | ⟨id, rfl, hinv, hfresh, -⟩⟩ := h.getConn dial
  · have hq₁ : s₁.requests r = some q := (hkeeps.requests r ((h.requests r).lt q hq)).1.trans hq
    have hsome : q.cb ≠ .null := fun hnull => (hcb hnull).elim (· hpool) hdial
    obtain ⟨s', herror, hinv'⟩ := hinv.finalizeError hq₁ hsome again
    refine ⟨s', ?_, hinv'⟩
    simp only [EvHttpClient.retryRequest, hq, hconn, bind, Option.bind, hget, herror]
  · obtain ⟨q', k, hattach, hinv', -⟩ := hinv.attach List.not_mem_nil hfresh
    refine ⟨_, ?_, hinv'⟩
    simp only [EvHttpClient.retryRequest, hq, hconn, bind, Option.bind, hget, hattach]

/-- A request without a callback that finds no other connection. -/
theorem retryRequest_null (hq : s.requests r = some q) (hconn : q.conn = none) (hcb : q.cb = .null)
    (hpool : s.connections = []) {dial : Dial} (hdial : dial ≠ .connects) (again : List UserCall) :
    s.retryRequest r dial again = none := by
  have hget : s.getConn dial = some (none, (s.createConn dial).2) := by
    rw [EvHttpClient.getConn, hpool]
    cases dial with
    | connects => exact absurd rfl hdial
    | socketFails errno => rfl
    | connectFails errno => rfl
  have hq₁ : (s.createConn dial).2.requests r = some q := by
    cases dial <;> exact hq
  simp only [EvHttpClient.retryRequest, hq, hconn, bind, Option.bind, hget]
  exact finalizeError_null hq₁ hcb again

/-- The socket of a request fails: the request is called back with an error, or is on another connection. -/
theorem Inv.connFailed (h : s.Inv { pinned := pin }) (ha : s.Attached { pinned := pin } r q id k)
    (hpin : ∀ p ∈ pin, p.r ≠ r) (e : ClientError) {dial : Dial}
    (hcb : q.cb = .null → k.isNew = false ∧ (s.connections ≠ [] ∨ dial = .connects)) (again : List UserCall) :
    ∃ s', s.connFailed r id k e dial again = some s' ∧ s'.Inv { pinned := pin } := by
  rw [EvHttpClient.connFailed]
  split
  · rename_i hnew
    obtain ⟨s₁, hdrop, hinv, hq, -⟩ := (h.setError (some e) s.timed).dropConn (ha.change
      ⟨rfl, Or.inl, Iff.rfl, Iff.rfl, Iff.rfl, Iff.rfl⟩ ⟨rfl, rfl, rfl, Iff.rfl, Iff.rfl, Iff.rfl, Iff.rfl,
      Iff.rfl⟩) hpin
    rw [Option.bind_eq_bind, hdrop]
    refine hinv.finalizeError hq (fun hnull => ?_) again
    exact absurd ((hcb hnull).1.symm.trans hnew) (by decide)
  · obtain ⟨s₁, hdrop, hinv, hq, hpool⟩ := h.dropConn ha hpin
    rw [Option.bind_eq_bind, hdrop]
    exact hinv.retryRequest hq rfl (fun hnull => hpool ▸ (hcb hnull).2) again

/-- A request without a callback is given an error. -/
theorem connFailed_null (hq : s.requests r = some q) (hk : s.conns id = some k) (hcb : q.cb = .null) {dial : Dial}
    (hends : ¬ (k.isNew = false ∧ (s.connections ≠ [] ∨ dial = .connects))) (e : ClientError)
    (again : List UserCall) :
    s.connFailed r id k e dial again = none := by
  have hq' : ∀ t : EvHttpClient, (t.setRequest r { q with conn := none }).requests r =
      some { q with conn := none } :=
    fun t => Function.update_self ..
  rw [EvHttpClient.connFailed]
  split
  · rw [Option.bind_eq_bind, dropConn_eq (s := { s with lastError := some e }) hk hq, Option.bind_some]
    exact finalizeError_null (hq' _) hcb again
  · rename_i hnew
    rw [not_and, not_or, not_not] at hends
    obtain ⟨hpool, hdial⟩ := hends (Bool.eq_false_iff.2 hnew)
    rw [Option.bind_eq_bind, dropConn_eq hk hq, Option.bind_some]
    refine retryRequest_null (hq' _) rfl hcb ?_ hdial again
    exact hpool

end Calls

/-! ### The parser -/

/-- A response that is being put together. -/
structure Parsing where
  response : ResponseInfo
  headerState : HeaderState := .field
  headerField : List UInt8 := []
  headerValue : List UInt8 := []
  body : List UInt8 := []
  messageBegun : Bool := false

namespace Parsing

/-- `flushHeaders`. -/
def flush (p : Parsing) : Parsing :=
  { p with response := p.response.setHeader p.headerField p.headerValue, headerField := [], headerValue := [] }

/-- A callback before the end of the message that does not stop the parser. -/
def absorb (p : Parsing) : ParserCall → Option Parsing
  | .messageBegin => if p.messageBegun then none else some { p with messageBegun := true }
  | .headerField bs =>
    match p.headerState with
    | .field => some { p with headerField := p.headerField ++ bs }
    | .value => some { p.flush with headerState := .field, headerField := bs }
    | .done => none
  | .headerValue bs =>
    if p.headerState = .done then none
    else some { p with headerState := .value, headerValue := p.headerValue ++ bs }
  | .headersComplete => if p.messageBegun then some { p.flush with headerState := .done } else none
  | .body bs => some { p with body := p.body ++ bs }
  | .messageComplete _ => none

/-- What the request and its connection hold of the response. -/
def of (q : RequestInfo) (k : HttpConn) : Parsing :=
  ⟨q.response, k.headerState, k.headerField, k.headerValue, k.body, k.messageBegun⟩

end Parsing

section Parser

variable {s : EvHttpClient} {pin : Option Pin} {r id : ℕ} {q : RequestInfo} {k : HttpConn}

/-- The connection waits for the rest of its answer, or has all of it and no request any more. -/
inductive Reading (s : EvHttpClient) (pin : Option Pin) (id : ℕ) (cb : Callback) : Prop
  | waits {r : ℕ} {q : RequestInfo} {k : HttpConn} (inv : s.Inv { pinned := pin })
    (attached : s.Attached { pinned := pin } r q id k) (unpinned : ∀ p ∈ pin, p.r ≠ r) (callback : q.cb = cb)
  | complete {k : HttpConn} (inv : s.Inv { conn := some id, pinned := pin }) (conn : s.conns id = some k)
    (begun : k.messageBegun = true) (complete : k.messageComplete = true)

theorem put_same (s : EvHttpClient) (r : ℕ) (q : RequestInfo) (id : ℕ) (k : HttpConn) :
    s.put r q id k (s.writeOn id) (s.readOn id) = (s.setConn id k).setRequest r q := by
  rw [EvHttpClient.put, Function.update_eq_self, Function.update_eq_self]
  rfl

theorem Inv.setAttached {c : HttpConn} (h : s.Inv { pinned := pin }) (ha : s.Attached { pinned := pin } r q id k)
    (hpin : ∀ p ∈ pin, p.r ≠ r) (hrequest : c.request = k.request)
    (hsent : c.requestBytesSent = k.requestBytesSent) (hwire : c.wire = k.wire)
    (hcomplete : c.messageComplete = k.messageComplete)
    (hbegun : c.headerState = .done → c.messageBegun = true) :
    (s.setConn id c).Inv { pinned := pin } ∧ (s.setConn id c).Attached { pinned := pin } r q id c := by
  have hf := ha.fits
  have hfits : Fits { pinned := pin } r q id c (s.writeOn id) (s.readOn id) := by
    refine ⟨hrequest.trans hf.to_request, hf.to_conn, fun hne => hcomplete.trans (hf.incomplete hne), hbegun, ?_,
      ?_, hf.watch, ?_⟩
    · rw [hsent]
      exact hf.sent_le
    · rw [hsent, hwire]
      exact hf.wire
    · rw [hsent]
      exact hf.reads
  obtain ⟨hinv, ha'⟩ := h.put ha hpin hfits
  have hsame : s.put r q id c (s.writeOn id) (s.readOn id) = s.setConn id c := by
    have hq : update s.requests r (some q) = s.requests := Function.update_eq_self_iff.2 ha.request.symm
    rw [put_same, setRequest, setConn, hq]
  rw [hsame] at hinv ha'
  exact ⟨hinv, ha'⟩

/-- A header goes to the response of the request. `c` is the connection with its new header state. -/
theorem Inv.flushHeaders {c : HttpConn} (h : s.Inv { pinned := pin }) (ha : s.Attached { pinned := pin } r q id k)
    (hpin : ∀ p ∈ pin, p.r ≠ r) (hrequest : c.request = k.request)
    (hsent : c.requestBytesSent = k.requestBytesSent) (hwire : c.wire = k.wire)
    (hcomplete : c.messageComplete = k.messageComplete)
    (hbegun : c.headerState = .done → c.messageBegun = true) :
    ∃ s', s.flushHeaders id c = some s' ∧ s'.Inv { pinned := pin } ∧
      s'.Attached { pinned := pin } r { q with response := q.response.setHeader c.headerField c.headerValue } id
        { c with headerField := [], headerValue := [] } := by
  have hto : c.request = some r := hrequest.trans ha.to_request
  have hf := ha.fits
  have hfits : Fits { pinned := pin } r { q with response := q.response.setHeader c.headerField c.headerValue } id
      { c with headerField := [], headerValue := [] } (s.writeOn id) (s.readOn id) := by
    refine ⟨hto, hf.to_conn, fun hne => hcomplete.trans (hf.incomplete hne), hbegun, ?_, ?_, hf.watch, ?_⟩
    · exact hsent.trans_le hf.sent_le
    · exact hwire.trans (hsent ▸ hf.wire)
    · exact fun hread => hsent.trans (hf.reads hread)
  obtain ⟨hinv, ha'⟩ := h.put ha hpin hfits
  refine ⟨_, ?_, hinv, ha'⟩
  rw [EvHttpClient.flushHeaders, hto, Option.bind_eq_bind, Option.bind_some, ha.request, put_same]
  rfl

/-- **A callback before the end of the message**: the request and its connection hold what is absorbed. -/
theorem Inv.absorb (h : s.Inv { pinned := pin }) (ha : s.Attached { pinned := pin } r q id k)
    (hpin : ∀ p ∈ pin, p.r ≠ r) (again : List UserCall) {c : ParserCall} {p : Parsing}
    (hc : (Parsing.of q k).absorb c = some p) :
    ∃ s' q' k', s.parserCall id again c = some (false, s') ∧ s'.Inv { pinned := pin } ∧
      s'.Attached { pinned := pin } r q' id k' ∧ Parsing.of q' k' = p ∧ k'.failed = k.failed ∧ q'.cb = q.cb := by
  cases c with
  | messageBegin =>
    cases hbegun : k.messageBegun with
    | true => simp [Parsing.absorb, Parsing.of, hbegun] at hc
    | false =>
      obtain ⟨hinv', ha'⟩ := h.setAttached (c := { k with messageBegun := true }) ha hpin rfl rfl rfl rfl
        fun _ => rfl
      refine ⟨_, q, _, ?_, hinv', ha', ?_, rfl, rfl⟩
      · simp [EvHttpClient.parserCall, ha.conn, ha.to_request, hbegun]
      · simpa [Parsing.absorb, Parsing.of, hbegun] using hc
  | headerField bs =>
    cases hstate : k.headerState with
    | field =>
      obtain ⟨hinv', ha'⟩ := h.setAttached
        (c := { k with headerState := .field, headerField := k.headerField ++ bs }) ha hpin rfl rfl rfl rfl
        (by simp)
      refine ⟨_, q, _, ?_, hinv', ha', ?_, rfl, rfl⟩
      · simp [EvHttpClient.parserCall, ha.conn, hstate]
      · simpa [Parsing.absorb, Parsing.of, hstate] using hc
    | value =>
      -- a name behind a value: the header before it is stored first
      obtain ⟨s₁, hflush, hinv₁, ha₁⟩ := h.flushHeaders ha hpin rfl rfl rfl rfl ha.begun
      obtain ⟨hinv', ha'⟩ := hinv₁.setAttached
        (c := { k with headerState := .field, headerField := [] ++ bs, headerValue := [] }) ha₁ hpin rfl rfl rfl
        rfl (by simp)
      refine ⟨_, _, _, ?_, hinv', ha', ?_, rfl, rfl⟩
      · simp [EvHttpClient.parserCall, ha.conn, hstate, hflush, ha₁.conn]
      · simpa [Parsing.absorb, Parsing.of, Parsing.flush, hstate] using hc
    | done => simp [Parsing.absorb, Parsing.of, hstate] at hc
  | headerValue bs =>
    by_cases hdone : k.headerState = .done
    · simp [Parsing.absorb, Parsing.of, hdone] at hc
    · obtain ⟨hinv', ha'⟩ := h.setAttached
        (c := { k with headerState := .value, headerValue := k.headerValue ++ bs }) ha hpin rfl rfl rfl rfl
        (by simp)
      refine ⟨_, q, _, ?_, hinv', ha', ?_, rfl, rfl⟩
      · simp [EvHttpClient.parserCall, ha.conn, hdone]
      · simpa [Parsing.absorb, Parsing.of, hdone] using hc
  | headersComplete =>
    cases hbegun : k.messageBegun with
    | false => simp [Parsing.absorb, Parsing.of, hbegun] at hc
    | true =>
      -- the last header is stored, also if there was none
      obtain ⟨s₁, hflush, hinv₁, ha₁⟩ :=
        h.flushHeaders (c := { k with headerState := .done }) ha hpin rfl rfl rfl rfl fun _ => hbegun
      refine ⟨s₁, _, _, ?_, hinv₁, ha₁, ?_, rfl, rfl⟩
      · simp [EvHttpClient.parserCall, ha.conn, hflush]
      · simpa [Parsing.absorb, Parsing.of, Parsing.flush, hbegun] using hc
  | body bs =>
    obtain ⟨hinv', ha'⟩ := h.setAttached (c := { k with body := k.body ++ bs }) ha hpin rfl rfl rfl rfl ha.begun
    refine ⟨_, q, _, ?_, hinv', ha', ?_, rfl, rfl⟩
    · simp [EvHttpClient.parserCall, ha.conn]
    · simpa [Parsing.absorb, Parsing.of] using hc
  | messageComplete statusCode => simp [Parsing.absorb] at hc

/-- **A whole message**: the user is called back, the request is deleted, and its connection is free. -/
theorem Inv.messageComplete (h : s.Inv { pinned := pin }) (ha : s.Attached { pinned := pin } r q id k)
    (hpin : ∀ p ∈ pin, p.r ≠ r) (hbegun : k.messageBegun = true) (hcb : q.cb ≠ .null) (statusCode : ℤ)
    (again : List UserCall) : ∃ s', s.messageCompleteCb id k statusCode again = some s' ∧ s'.Reading pin id q.cb ∧
      (r, .response { q.response with response := k.body, timeout := false, code := statusCode }) ∈ s'.calls := by
  set response : ResponseInfo :=
    { q.response with response := k.body, timeout := false, code := statusCode } with hresponse
  set k' : HttpConn := { k with messageComplete := true } with hk'
  set q' : RequestInfo := { q with response := response } with hq'
  -- the callback is recorded first: a complete message on a connection with a request is in order only then
  have ha₀ : (s.stopTimer r).Attached { pinned := pin } r q id k := { ha with }
  have h₁ := (h.stopTimer r).record rfl ha₀.request (.response response)
  have ha₁ := ha₀.recorded rfl (s.calls ++ [(r, .response response)]) (some r)
  have hf := ha.fits
  have hfits : Fits { called := some r, pinned := pin } r q' id k' (s.writeOn id) (s.readOn id) :=
    ⟨hf.to_request, hf.to_conn, fun hne => absurd rfl hne, hf.begun, hf.sent_le, hf.wire, hf.watch, hf.reads⟩
  obtain ⟨h₂, ha₂⟩ := h₁.put ha₁ hpin hfits
  obtain ⟨s', hcalls, hinv, hkeeps⟩ := h₂.userCalls (if q.cb = .noOp then [] else again)
  have ha' := hkeeps.attached h₂ ha₂
  have htimer : s'.timerOn r = false :=
    (hkeeps.requests r ((h₂.requests r).lt q' ha₂.request)).2.trans (Function.update_self ..)
  have hcalled : (r, .response response) ∈ s'.calls := by
    rw [hkeeps.calls]
    simp [EvHttpClient.put]
  have hmem : r ∈ s'.calledBack := List.mem_map_of_mem hcalled
  refine ⟨_, ?_, .complete (hinv.detach (c := { k' with responseSent := true, request := none }) ha' hpin htimer
    hmem rfl) (Function.update_self ..) hbegun rfl, hcalled⟩
  have hcallback : (((s.stopTimer r).setConn id k').setRequest r q').callback r (.response response) again =
      some s' := by
    rw [callback_eq (q := q') (Function.update_self ..) hcb, ← hcalls]
    have hsame := put_same { s.stopTimer r with calls := s.calls ++ [(r, .response response)] } r q' id k'
    exact congrArg (List.foldlM EvHttpClient.userCall · _) hsame.symm
  rw [messageCompleteCb]
  refine Option.bind_eq_some_iff.2 ⟨r, ha.to_request, Option.bind_eq_some_iff.2 ⟨q, ha.request, ?_⟩⟩
  refine Option.bind_eq_some_iff.2 ⟨s', hcallback, Option.bind_eq_some_iff.2 ⟨k', ha'.conn, ?_⟩⟩
  exact Option.bind_eq_some_iff.2 ⟨r, ha'.to_request, Option.bind_eq_some_iff.2 ⟨q', ha'.request, rfl⟩⟩

/-- The end of the message of a request without a callback. -/
theorem messageCompleteCb_null (hq : s.requests r = some q) (hto : k.request = some r) (hcb : q.cb = .null)
    (statusCode : ℤ) (again : List UserCall) : s.messageCompleteCb id k statusCode again = none := by
  simp only [messageCompleteCb, hto, hq, Option.bind_eq_bind, Option.bind_some]
  set response : ResponseInfo := { q.response with response := k.body, timeout := false, code := statusCode }
  rw [callback_null (q := { q with response := response }) (Function.update_self ..) hcb, Option.bind_none]

/-- A callback that is not absorbed stops the parser, unless it is the end of the message. -/
theorem Attached.parserCall_stops {l : Loose} (ha : s.Attached l r q id k) (again : List UserCall)
    {c : ParserCall} (hpossible : Possible k c) (hc : c.isComplete = false)
    (habsorb : (Parsing.of q k).absorb c = none) :
    s.parserCall id again c = some (true, s) := by
  cases c with
  | messageBegin =>
    have hbegun : k.messageBegun = true := by
      by_contra hnot
      simp [Parsing.absorb, Parsing.of, hnot] at habsorb
    simp [EvHttpClient.parserCall, ha.conn, hbegun]
  | headerField bs =>
    have hdone : k.headerState = .done := by
      cases hstate : k.headerState <;> simp [Parsing.absorb, Parsing.of, hstate] at habsorb ⊢
    simp [EvHttpClient.parserCall, ha.conn, hdone]
  | headerValue bs =>
    have hdone : k.headerState = .done := by
      by_contra hnot
      simp [Parsing.absorb, Parsing.of, hnot] at habsorb
    simp [EvHttpClient.parserCall, ha.conn, hdone]
  | headersComplete => simp [Parsing.absorb, Parsing.of, hpossible.1] at habsorb
  | body bs => simp [Parsing.absorb] at habsorb
  | messageComplete statusCode => cases hc

/-- **One callback of the parser.** -/
theorem Reading.parserCall {cb : Callback} (h : s.Reading pin id cb) (again : List UserCall) (c : ParserCall)
    (hc : ∀ k, s.conns id = some k → Possible k c) (hcb : cb = .null → c.isComplete = false) :
    ∃ stop s', s.parserCall id again c = some (stop, s') ∧ s'.Reading pin id cb := by
  cases h with
  | @waits r q k hinv ha hpin hq =>
    have hpossible := hc k ha.conn
    cases hend : c.isComplete with
    | true =>
      cases c with
      | messageComplete statusCode =>
        have hsome : q.cb ≠ .null := fun hnull => by cases hcb (hq.symm.trans hnull)
        obtain ⟨s', hmessage, hreading, -⟩ :=
          hinv.messageComplete ha hpin (ha.begun hpossible.1) hsome statusCode again
        refine ⟨false, s', ?_, hq ▸ hreading⟩
        simp only [EvHttpClient.parserCall, ha.conn, Option.bind_eq_bind, Option.bind_some, hmessage]
      | _ => cases hend
    | false =>
      cases habsorb : (Parsing.of q k).absorb c with
      | some p =>
        obtain ⟨s', q', k', hcall, hinv', ha', -, -, hq'⟩ := hinv.absorb ha hpin again habsorb
        exact ⟨false, s', hcall, .waits hinv' ha' hpin (hq'.trans hq)⟩
      | none => exact ⟨true, s, ha.parserCall_stops again hpossible hend habsorb, .waits hinv ha hpin hq⟩
  | @complete k hinv hk hbegun hcomplete =>
    -- behind a whole message the parser can only begin another one, which stops it
    have hpossible := hc k hk
    cases c with
    | messageBegin =>
      refine ⟨true, s, ?_, .complete hinv hk hbegun hcomplete⟩
      simp only [EvHttpClient.parserCall, hk, Option.bind_eq_bind, Option.bind_some, hbegun, true_or, if_true]
    | headerField | headerValue | body | messageComplete =>
      exact absurd (hcomplete.symm.trans hpossible.2) (by decide)
    | headersComplete => exact absurd (hcomplete.symm.trans hpossible.2.2) (by decide)

theorem Reading.fail {cb : Callback} (h : s.Reading pin id cb) :
    ∃ s', s.fail id = some s' ∧ s'.Reading pin id cb := by
  cases h with
  | @waits r q k hinv ha hpin hq =>
    obtain ⟨hinv', ha'⟩ := hinv.setAttached (c := { k with failed := true }) ha hpin rfl rfl rfl rfl ha.begun
    refine ⟨_, ?_, .waits hinv' ha' hpin hq⟩
    rw [EvHttpClient.fail, ha.conn]
    rfl
  | @complete k hinv hk hbegun hcomplete =>
    obtain ⟨-, k₁, hk₁, hrequest⟩ := (hinv.conns id).free rfl
    cases hk.symm.trans hk₁
    have hset := hinv.setLoose (c := { k with failed := true }) rfl hrequest (s.writeOn id) (s.readOn id)
    rw [Function.update_eq_self, Function.update_eq_self] at hset
    refine ⟨_, ?_, .complete hset (Function.update_self ..) hbegun hcomplete⟩
    rw [EvHttpClient.fail, hk]
    rfl

theorem Reading.parserCalls {cb : Callback} (h : s.Reading pin id cb) (again : List UserCall) (malformed : Bool)
    {cs : List ParserCall} (hcs : s.InOrder id again cs) (hcb : cb = .null → s.Incomplete id again cs) :
    ∃ s', s.parserCalls id again malformed cs = some s' ∧ s'.Reading pin id cb := by
  induction cs generalizing s with
  | nil =>
    cases malformed with
    | true => exact h.fail
    | false => exact ⟨s, rfl, h⟩
  | cons c cs ih =>
    obtain ⟨stop, s₁, hcall, h₁⟩ := h.parserCall again c hcs.1 fun hnull => (hcb hnull).1
    simp only [EvHttpClient.parserCalls, hcall, Option.bind_eq_bind, Option.bind_some]
    cases stop with
    | true => exact h₁.fail
    | false => exact ih h₁ (hcs.2 (false, s₁) hcall rfl) fun hnull => (hcb hnull).2 (false, s₁) hcall rfl

/-- The parser does not come back from the end of the message of a request without a callback. -/
theorem Inv.parserCalls_null (h : s.Inv { pinned := pin }) (ha : s.Attached { pinned := pin } r q id k)
    (hpin : ∀ p ∈ pin, p.r ≠ r) (hcb : q.cb = .null) (again : List UserCall) (malformed : Bool)
    {cs : List ParserCall} (hcs : s.InOrder id again cs) (hends : ¬ s.Incomplete id again cs) :
    s.parserCalls id again malformed cs = none := by
  induction cs generalizing s q k with
  | nil => exact absurd trivial hends
  | cons c cs ih =>
    cases hend : c.isComplete with
    | true =>
      cases c with
      | messageComplete statusCode =>
        simp only [EvHttpClient.parserCalls, EvHttpClient.parserCall, ha.conn, Option.bind_eq_bind,
          Option.bind_some, messageCompleteCb_null ha.request ha.to_request hcb, Option.bind_none]
      | _ => cases hend
    | false =>
      -- the end of the message is in a later call
      have hlater : ∃ x ∈ s.parserCall id again c, x.1 = false ∧ ¬ Incomplete x.2 id again cs := by
        by_contra hnone
        push Not at hnone
        exact hends ⟨hend, hnone⟩
      obtain ⟨⟨stop, s₁⟩, hcall, rfl, hends₁⟩ := hlater
      rw [Option.mem_def] at hcall
      cases habsorb : (Parsing.of q k).absorb c with
      | some p =>
        obtain ⟨s', q', k', hcall', hinv', ha', -, -, hq'⟩ := h.absorb ha hpin again habsorb
        cases hcall.symm.trans hcall'
        simp only [EvHttpClient.parserCalls, hcall, Option.bind_eq_bind, Option.bind_some]
        exact ih hinv' ha' (hq'.trans hcb) (hcs.2 (false, s₁) hcall rfl) hends₁
      | none =>
        have hstop := ha.parserCall_stops again (hcs.1 k ha.conn) hend habsorb
        cases hcall.symm.trans hstop

theorem Inv.returnConn (h : s.Inv { conn := some id, pinned := pin }) :
    ∃ s', s.returnConn id = some s' ∧ s'.Inv { pinned := pin } := by
  obtain ⟨-, k, hk, hrequest⟩ := (h.conns id).free rfl
  have hstop := h.setLoose (c := k) rfl hrequest false false
  rw [Function.update_eq_self_iff.2 hk.symm] at hstop
  simp only [EvHttpClient.returnConn, hk, Option.bind_eq_bind, Option.bind_some]
  split
  · rename_i hlen
    exact ⟨_, rfl, hstop.push rfl (Function.update_self ..) (Function.update_self ..) hlen⟩
  · exact hstop.destroyLoose rfl

theorem Reading.finish {cb : Callback} (h : s.Reading pin id cb) :
    ∃ s', (s.conns id).bind (fun k => if k.messageComplete then s.returnConn id else some s) = some s' ∧
      s'.Inv { pinned := pin } := by
  cases h with
  | waits hinv ha _ _ =>
    have hincomplete := ha.incomplete nofun
    rw [ha.conn, Option.bind_some, hincomplete]
    exact ⟨s, rfl, hinv⟩
  | complete hinv hk hbegun hcomplete =>
    rw [hk, Option.bind_some, hcomplete]
    exact hinv.returnConn

end Parser

/-! ### Events -/

section Events

variable {s : EvHttpClient} {pin : Option Pin} {r id : ℕ}

/-- A watcher is active only on a connection with a request. -/
theorem Inv.watched (h : s.Inv { pinned := pin }) (hon : s.writeOn id = true ∨ s.readOn id = true) :
    ∃ r q k, s.Attached { pinned := pin } r q id k := by
  have hok := h.conns id
  have hsome : (s.conns id).isSome := hon.elim hok.write hok.read
  obtain ⟨k, hk⟩ := Option.isSome_iff_exists.1 hsome
  have hpool : id ∉ s.connections := fun hmem => by
    obtain ⟨-, -, -, hw, hr⟩ := hok.pooled hmem
    rcases hon with hon | hon
    · exact absurd (hw.symm.trans hon) (by decide)
    · exact absurd (hr.symm.trans hon) (by decide)
  obtain ⟨r, q, ha⟩ := hok.link k hk hpool nofun
  exact ⟨r, q, k, ha⟩

/-- An event on another connection is about another request. -/
theorem Inv.unpinned {q : RequestInfo} {k : HttpConn} (h : s.Inv { pinned := pin })
    (ha : s.Attached { pinned := pin } r q id k) (hpin : ∀ p ∈ pin, p.id ≠ id) : ∀ p ∈ pin, p.r ≠ r :=
  fun p hp heq => hpin p hp ((ha.pairs (h.pinned p hp)).1 heq)

theorem Inv.writeCb (h : s.Inv { pinned := pin }) {sent : Except ℤ ℕ} {dial : Dial} {again : List UserCall}
    (hpin : ∀ p ∈ pin, p.id ≠ id) (henabled : s.Enabled (.writable id sent dial again))
    (hsafe : s.Safe (.writable id sent dial again)) :
    ∃ s', s.writeCb id sent dial again = some s' ∧ s'.Inv { pinned := pin } := by
  obtain ⟨hon, hle⟩ := henabled
  obtain ⟨r, q, k, ha⟩ := h.watched (Or.inl hon)
  replace hpin := h.unpinned ha hpin
  simp only [EvHttpClient.writeCb, ha.conn, ha.to_request, ha.request, Option.bind_eq_bind, Option.bind_some]
  cases sent with
  | error errno =>
    simp only [if_neg hsafe.1]
    exact h.connFailed ha hpin (.send errno) (hsafe.2 k ha.conn r ha.to_request q ha.request) again
  | ok n =>
    have hle' : k.requestBytesSent + n ≤ q.requestString.length :=
      hle n rfl k ha.conn r ha.to_request q ha.request
    have hread : s.readOn id = false := ha.watch hon
    set k' : HttpConn := { k with
      request := some r
      requestBytesSent := k.requestBytesSent + n
      wire := k.wire ++ (q.requestString.drop k.requestBytesSent).take n } with hk'
    -- what goes out is the next piece of the request, so `wire` stays a beginning of it
    have hfits : ∀ read, (read = true → k.requestBytesSent + n = q.requestString.length) →
        Fits { pinned := pin } r q id k' (!read) read := by
      refine fun read hall => ⟨rfl, ha.to_conn, ha.incomplete, ha.begun, hle', ?_, by simp, hall⟩
      change k.wire ++ _ = q.requestString.take (k.requestBytesSent + n)
      rw [List.take_add, ha.wire]
    have hq : update s.requests r (some q) = s.requests := Function.update_eq_self_iff.2 ha.request.symm
    dsimp only
    split
    · -- all is sent: the read watcher takes over
      rename_i hall
      have hput := (h.put ha hpin (hfits true fun _ => hall)).1
      rw [EvHttpClient.put, hq] at hput
      exact ⟨_, rfl, hput⟩
    · -- a part is sent: the watchers stay as they are
      have hput := (h.put ha hpin (hfits false (by simp))).1
      have hon' : update s.writeOn id (!false) = s.writeOn := Function.update_eq_self_iff.2 hon.symm
      have hread' : update s.readOn id false = s.readOn := Function.update_eq_self_iff.2 hread.symm
      rw [EvHttpClient.put, hq, hon', hread'] at hput
      exact ⟨_, rfl, hput⟩

theorem Inv.readCb (h : s.Inv { pinned := pin }) {received : Except ℤ Received} {dial : Dial}
    {again : List UserCall} (hpin : ∀ p ∈ pin, p.id ≠ id)
    (henabled : s.Enabled (.readable id received dial again))
    (hsafe : s.Safe (.readable id received dial again)) :
    ∃ s', s.readCb id received dial again = some s' ∧ s'.Inv { pinned := pin } := by
  obtain ⟨hon, hreceived⟩ := henabled
  obtain ⟨r, q, k, ha⟩ := h.watched (Or.inr hon)
  replace hpin := h.unpinned ha hpin
  simp only [EvHttpClient.readCb, ha.conn, Option.bind_eq_bind, Option.bind_some]
  cases received with
  | error errno =>
    simp only [ha.to_request, Option.bind_some]
    exact h.connFailed ha hpin (.recv errno) (hsafe k ha.conn r ha.to_request q ha.request) again
  | ok rcv =>
    obtain ⟨-, hle, horder⟩ := hreceived rcv rfl
    -- the zero behind the received bytes is in the buffer
    have hlt : rcv.count < s.blockSize := lt_of_le_of_ne hle hsafe.1
    obtain ⟨s₁, hexecute, hreading⟩ :
        ∃ s', s.parserExecute id again rcv.malformed rcv.parsed = some s' ∧ s'.Reading pin id q.cb := by
      simp only [parserExecute, ha.conn, Option.bind_eq_bind, Option.bind_some]
      cases hfailed : k.failed with
      | true => exact ⟨s, rfl, .waits h ha hpin rfl⟩
      | false =>
        exact (Reading.waits h ha hpin rfl).parserCalls again rcv.malformed (horder k ha.conn hfailed)
          (hsafe.2 k ha.conn hfailed r ha.to_request q ha.request)
    simp only [if_pos hlt, hexecute, Option.bind_some]
    exact hreading.finish

theorem Inv.timeoutCb (h : s.Inv { pinned := pin }) {again : List UserCall} (hpin : ∀ p ∈ pin, p.r ≠ r)
    (henabled : s.Enabled (.timeout r again))
    (hsafe : s.Safe (.timeout r again)) : ∃ s', s.timeoutCb r again = some s' ∧ s'.Inv { pinned := pin } := by
  obtain ⟨q, hq⟩ := Option.isSome_iff_exists.1 ((h.requests r).timer henabled)
  obtain ⟨id, k, ha⟩ := (h.requests r).link q hq List.not_mem_nil
  obtain ⟨hcb, hfailed⟩ := hsafe q hq
  replace hfailed := hfailed id ha.to_conn k ha.conn
  obtain ⟨s₁, hdrop, hinv, hq₁, -⟩ := h.dropConn ha hpin
  -- `destroyConn` stops the watchers once more
  have hstop : (s.stopWatchers id).dropConn r id = s.dropConn r id := by
    have hk : (s.stopWatchers id).conns id = some k := ha.conn
    have hq' : (s.stopWatchers id).requests r = some q := hq
    rw [dropConn_eq hk hq', dropConn_eq ha.conn hq]
    simp only [EvHttpClient.stopWatchers, Function.update_idem]
  simp only [EvHttpClient.timeoutCb, hq, ha.to_conn, ha.conn, hfailed, Option.bind_eq_bind, Option.bind_some,
    hstop, hdrop, Bool.false_eq_true, if_false]
  exact hinv.finalizeTimeout hq₁ hcb again

/-- The event is about other requests and connections than the pinned ones. -/
def Elsewhere (pin : Option Pin) : Event → Prop
  | .writable id _ _ _ => ∀ p ∈ pin, p.id ≠ id
  | .readable id _ _ _ => ∀ p ∈ pin, p.id ≠ id
  | .timeout r _ => ∀ p ∈ pin, p.r ≠ r
  | _ => True

/-- **One event**: it keeps the invariant if the client can stand it. -/
theorem Inv.step (h : s.Inv { pinned := pin }) {e : Event} (hpin : Elsewhere pin e) (henabled : s.Enabled e)
    (hsafe : s.Safe e) : ∃ s', s.step e = some s' ∧ s'.Inv { pinned := pin } := by
  cases e with
  | call u =>
    obtain ⟨s', hcall, hinv, -⟩ := h.userCall u
    exact ⟨s', hcall, hinv⟩
  | writable id sent dial again => exact h.writeCb hpin henabled hsafe
  | writeError id errno => exact ⟨_, rfl, (h.stopWatchers id).setError _ _⟩
  | readable id received dial again => exact h.readCb hpin henabled hsafe
  | readError id errno => exact ⟨_, rfl, (h.stopWatchers id).setError _ _⟩
  | timeout r again => exact h.timeoutCb hpin henabled hsafe

/-- A request without a callback is on the connection whose socket fails, and there is no other one for it. -/
theorem Attached.not_retries {l : Loose} {q : RequestInfo} {k : HttpConn} (ha : s.Attached l r q id k)
    {dial : Dial} (h : ¬ s.Retries id dial) :
    q.cb = .null ∧ ¬ (k.isNew = false ∧ (s.connections ≠ [] ∨ dial = .connects)) := by
  simp only [Retries, ha.conn, ha.to_request, ha.request, Option.mem_some_iff, forall_eq'] at h
  exact Classical.not_imp.1 h

theorem Inv.writeCb_fault (h : s.Inv { pinned := pin }) {sent : Except ℤ ℕ} {dial : Dial} {again : List UserCall}
    (henabled : s.Enabled (.writable id sent dial again)) (hsafe : ¬ s.Safe (.writable id sent dial again)) :
    s.writeCb id sent dial again = none := by
  obtain ⟨r, q, k, ha⟩ := h.watched (Or.inl henabled.1)
  simp only [EvHttpClient.writeCb, ha.conn, ha.to_request, ha.request, Option.bind_eq_bind, Option.bind_some]
  cases sent with
  | ok n => exact absurd trivial hsafe
  | error errno =>
    dsimp only
    split
    · rfl
    · rename_i herrno
      obtain ⟨hcb, hends⟩ := ha.not_retries fun hretries => hsafe ⟨herrno, hretries⟩
      exact connFailed_null ha.request ha.conn hcb hends _ again

theorem Inv.readCb_fault (h : s.Inv { pinned := pin }) {received : Except ℤ Received} {dial : Dial}
    {again : List UserCall} (hpin : ∀ p ∈ pin, p.id ≠ id)
    (henabled : s.Enabled (.readable id received dial again))
    (hsafe : ¬ s.Safe (.readable id received dial again)) : s.readCb id received dial again = none := by
  obtain ⟨r, q, k, ha⟩ := h.watched (Or.inr henabled.1)
  simp only [EvHttpClient.readCb, ha.conn, Option.bind_eq_bind, Option.bind_some]
  cases received with
  | error errno =>
    obtain ⟨hcb, hends⟩ := ha.not_retries hsafe
    simp only [ha.to_request, Option.bind_some]
    exact connFailed_null ha.request ha.conn hcb hends _ again
  | ok rcv =>
    dsimp only
    split
    · rename_i hlt
      -- the answer is complete, and there is no callback for it
      have hnull : ¬ (k.failed = false → q.cb = .null → s.Incomplete id again rcv.parsed) := by
        intro hall
        refine hsafe ⟨hlt.ne, ?_⟩
        simpa only [ha.conn, ha.to_request, ha.request, Option.mem_some_iff, forall_eq'] using hall
      obtain ⟨hfailed, hends⟩ := Classical.not_imp.1 hnull
      obtain ⟨hcb, hends⟩ := Classical.not_imp.1 hends
      obtain ⟨-, -, horder⟩ := henabled.2 rcv rfl
      have hparser := h.parserCalls_null ha (h.unpinned ha hpin) hcb again rcv.malformed
        (horder k ha.conn hfailed) hends
      simp only [parserExecute, ha.conn, hfailed, Option.bind_eq_bind, Option.bind_some, Bool.false_eq_true,
        if_false, hparser, Option.bind_none]
    · rfl

theorem Inv.timeoutCb_fault (h : s.Inv { pinned := pin }) {again : List UserCall}
    (henabled : s.Enabled (.timeout r again)) (hsafe : ¬ s.Safe (.timeout r again)) :
    s.timeoutCb r again = none := by
  obtain ⟨q, hq⟩ := Option.isSome_iff_exists.1 ((h.requests r).timer henabled)
  obtain ⟨id, k, ha⟩ := (h.requests r).link q hq List.not_mem_nil
  simp only [EvHttpClient.timeoutCb, hq, ha.to_conn, ha.conn, Option.bind_eq_bind, Option.bind_some]
  split
  · rfl
  · rename_i hfailed
    have hcb : q.cb = .null := by
      by_contra hsome
      refine hsafe ?_
      simp only [Safe, hq, ha.to_conn, ha.conn, Option.mem_some_iff, forall_eq']
      exact ⟨hsome, Bool.eq_false_iff.2 hfailed⟩
    have hk' : (s.stopWatchers id).conns id = some k := ha.conn
    rw [dropConn_eq hk' hq, Option.bind_some]
    exact finalizeTimeout_null (q := { q with conn := none }) (Function.update_self ..) hcb again

/-- The client does not survive an event that it cannot stand. -/
theorem Inv.step_fault (h : s.Inv { pinned := pin }) {e : Event} (hpin : Elsewhere pin e) (henabled : s.Enabled e)
    (hsafe : ¬ s.Safe e) : s.step e = none := by
  cases e with
  | call | writeError | readError => exact absurd trivial hsafe
  | writable id sent dial again => exact h.writeCb_fault henabled hsafe
  | readable id received dial again => exact h.readCb_fault hpin henabled hsafe
  | timeout r again => exact h.timeoutCb_fault henabled hsafe

theorem Inv.of_step {s' : EvHttpClient} (h : s.Inv { pinned := pin }) {e : Event} (hpin : Elsewhere pin e)
    (henabled : s.Enabled e) (hs' : s.step e = some s') : s'.Inv { pinned := pin } := by
  by_cases hsafe : s.Safe e
  · obtain ⟨s₁, hs₁, h₁⟩ := h.step hpin henabled hsafe
    cases hs₁.symm.trans hs'
    exact h₁
  · rw [h.step_fault hpin henabled hsafe] at hs'
    cases hs'

theorem not_pinned {P : Pin → Prop} : ∀ p ∈ (none : Option Pin), P p :=
  fun p hp => absurd hp (Option.not_mem_none p)

theorem elsewhere_none (e : Event) : Elsewhere none e := by
  cases e with
  | call | writeError | readError => trivial
  | writable | readable | timeout => exact not_pinned

/-! ### Whole runs -/

theorem Attached.pending {q : RequestInfo} {k : HttpConn} (ha : s.Attached {} r q id k) : s.Pending r id := by
  refine ⟨q, k, ha.request, ha.to_conn, ha.conn, ha.to_request, ?_, ha.watch, fun hread => ?_⟩
  · rw [ha.wire]
    exact List.take_prefix ..
  · rw [ha.wire, ha.reads hread, List.take_length]

theorem Inv.accounted (h : s.Inv {}) : s.Accounted := by
  refine ⟨fun r hlt => ?_, fun id hlt => ?_, h.pool_nodup, h.pool_le⟩
  · have hok := h.requests r
    cases hq : s.requests r with
    | some q =>
      obtain ⟨id, k, ha⟩ := hok.link q hq List.not_mem_nil
      exact Or.inl ⟨⟨id, ha.pending⟩, fun hmem => absurd ((hok.live hq).2 hmem) nofun⟩
    | none =>
      have hdead : ¬ (s.requests r).isSome := by
        rw [hq]
        decide
      have hmem : r ∈ s.calledBack := (hok.settled hlt).resolve_left hdead
      exact Or.inr ⟨rfl, Bool.eq_false_iff.2 fun ht => hdead (hok.timer ht),
        List.count_eq_one_of_mem h.calls_nodup hmem⟩
  · have hok := h.conns id
    cases hk : s.conns id with
    | some k =>
      refine Or.inl ⟨?_, (hok.live hk).2⟩
      by_cases hmem : id ∈ s.connections
      · obtain ⟨k', hk', hrequest, hw, hr⟩ := hok.pooled hmem
        exact Or.inl ⟨hmem, hw, hr, k', hk', hrequest⟩
      · obtain ⟨r, q, ha⟩ := hok.link k hk hmem nofun
        exact Or.inr ⟨hmem, r, ha.pending⟩
    | none =>
      have hdead : ¬ (s.conns id).isSome := by
        rw [hk]
        decide
      refine Or.inr ⟨rfl, Bool.eq_false_iff.2 fun hw => hdead (hok.write hw),
        Bool.eq_false_iff.2 fun hr => hdead (hok.read hr), ?_⟩
      -- only a socket whose `connect` failed is gone without being closed
      rcases (hok.accounted hlt).resolve_left hdead with hmem | hmem
      · exact Or.inl ⟨List.count_eq_one_of_mem h.closed_nodup hmem, (hok.closed hmem).2.2⟩
      · exact Or.inr ⟨fun hclosed => (hok.closed hclosed).2.2 hmem, hmem⟩

theorem inv_new (timed : Bool) (initNumConns : ℤ) (blockSize : ℕ) :
    (new timed initNumConns blockSize).Inv {} where
  requests := fun r => by
    have hlt : ¬ r < (new timed initNumConns blockSize).nextRequest := Nat.not_lt_zero r
    exact ⟨nofun, nofun, nofun, nofun, fun h => absurd h hlt, nofun⟩
  conns := fun id => by
    have hlt : ¬ id < (new timed initNumConns blockSize).nextConn := Nat.not_lt_zero id
    exact ⟨nofun, nofun, nofun, nofun, nofun, nofun, nofun, nofun, fun h => absurd h hlt⟩
  pinned := not_pinned
  pool_nodup := List.nodup_nil
  pool_le := Nat.zero_le _
  calls_nodup := List.nodup_nil
  closed_nodup := List.nodup_nil

theorem Inv.initConnPool (h : s.Inv {}) (dials : ℕ → Dial) (n : ℕ)
    (hn : s.connections.length + n ≤ CInt.toSize s.initNumConns) : (s.initConnPool dials n).Inv {} := by
  induction n generalizing s with
  | zero => exact h
  | succ n ih =>
    rw [EvHttpClient.initConnPool]
    cases hdial : dials n with
    | socketFails errno => exact h.setError _ _
    | connectFails errno => exact h.connectFails rfl errno
    | connects =>
      obtain ⟨hinv, -, hw, hr⟩ := h.createConn rfl
      have hlen : (s.createConn .connects).2.connections.length <
          CInt.toSize (s.createConn .connects).2.initNumConns := by
        change s.connections.length < CInt.toSize s.initNumConns
        omega
      refine ih (hinv.push rfl hw hr hlen) ?_
      change (s.connections ++ [s.nextConn]).length + n ≤ _
      rw [List.length_append, List.length_singleton, Nat.add_assoc, Nat.add_comm 1 n]
      exact hn

theorem inv_start (timed : Bool) {initNumConns : ℤ} (hint : initNumConns < 2 ^ 31) (blockSize : ℕ)
    (dials : ℕ → Dial) :
    (start timed initNumConns blockSize dials).Inv {} := by
  refine (inv_new timed initNumConns blockSize).initConnPool dials _ ?_
  change 0 + initNumConns.toNat ≤ CInt.toSize initNumConns
  rcases le_or_gt 0 initNumConns with hnonneg | hneg
  · rw [CInt.toSize_of_range hnonneg (by omega)]
    omega
  · omega

/-- **Every request is answered once.** In every order of events that the loop can have, the client faults
exactly at an event it cannot stand; up to there each request that it accepted waits on its own connection or
was called back once, and each socket is of a connection that is there, or was closed once, or was leaked by a
failed `connect`. -/
theorem run_accounted (timed : Bool) (initNumConns : ℤ) (hint : initNumConns < 2 ^ 31) (blockSize : ℕ)
    (dials : ℕ → Dial) (es : List Event)
    (henabled : Lts.Along step Enabled (start timed initNumConns blockSize dials) es) :
    ((Lts.run step (start timed initNumConns blockSize dials) es).isSome ↔
        Lts.Along step Safe (start timed initNumConns blockSize dials) es) ∧
      Lts.Always step Accounted (start timed initNumConns blockSize dials) es := by
  have hstart := inv_start timed hint blockSize dials
  have hstep : ∀ s e, Inv s {} → s.Enabled e → s.Safe e → ∃ s', s.step e = some s' ∧ s'.Inv {} :=
    fun s e h he hsafe => h.step (elsewhere_none e) he hsafe
  have hbad : ∀ s e, Inv s {} → s.Enabled e → ¬ s.Safe e → s.step e = none :=
    fun s e h he hsafe => h.step_fault (elsewhere_none e) he hsafe
  refine ⟨Lts.isSome_run_iff hstep hbad hstart henabled, ?_⟩
  have halways : Lts.Always step (fun s => s.Inv {}) (start timed initNumConns blockSize dials) es :=
    Lts.always_along (fun _ _ _ h he hs' => h.of_step (elsewhere_none _) he hs') hstart henabled
  exact halways.mono fun s h => h.accounted

/-- An answer in two pieces, and a request from its callback that finds no connection; then an old connection
that fails while the request is read, and another one for it. -/
def exampleEvents : List Event :=
  [.call (.makeRequest .user [71, 69, 84] .connects),
    .writable 0 (.ok 2) .connects [],
    .writable 0 (.ok 1) .connects [],
    .readable 0
      (.ok ⟨5, [.messageBegin, .headerField [65], .headerValue [66], .headersComplete, .body [1]], false⟩)
      .connects [],
    .readable 0 (.ok ⟨3, [.body [2], .messageComplete 200], false⟩) .connects
      [.makeRequest .user [80] (.connectFails 111)],
    .call (.makeRequest .user [71] .connects),
    .writable 0 (.ok 1) .connects [],
    .readable 0 (.error 104) .connects []]

theorem run_accounted_retry :
    Lts.Along step Enabled (start true 1 8 fun _ => .connects) exampleEvents ∧
      (Lts.run step (start true 1 8 fun _ => .connects) exampleEvents).isSome ∧
      Lts.Always step Accounted (start true 1 8 fun _ => .connects) exampleEvents :=
  ⟨by decide +kernel, by decide +kernel,
    (run_accounted true 1 (by decide +kernel) 8 (fun _ => .connects) exampleEvents (by decide +kernel)).2⟩

-- a request without a callback that is answered
example : (Lts.run step (start true 1 8 fun _ => .connects)
    [.call (.makeRequest .null [71] .connects), .writable 0 (.ok 1) .connects [],
      .readable 0 (.ok ⟨5, [.messageBegin, .headersComplete, .messageComplete 200], false⟩) .connects
        []]).isSome =
        false := by decide +kernel

/-! ### The end -/

/-- The connections are destroyed one after the other. -/
theorem foldlM_destroyConn {ids : List ℕ} (hids : ids.Nodup) (hlive : ∀ id ∈ ids, (s.conns id).isSome) :
    ∃ s', ids.foldlM destroyConn s = some s' ∧ s'.closed = s.closed ++ ids ∧ s'.leaked = s.leaked ∧
      (∀ id ∈ ids, s'.conns id = none ∧ s'.writeOn id = false ∧ s'.readOn id = false) ∧
      ∀ id, id ∉ ids → s'.conns id = s.conns id ∧ s'.writeOn id = s.writeOn id ∧ s'.readOn id = s.readOn id := by
  induction ids generalizing s with
  | nil => exact ⟨s, rfl, (List.append_nil _).symm, rfl, nofun, fun _ _ => ⟨rfl, rfl, rfl⟩⟩
  | cons id ids ih =>
    obtain ⟨hnot, hids⟩ := List.nodup_cons.1 hids
    obtain ⟨k, hk⟩ := Option.isSome_iff_exists.1 (hlive id List.mem_cons_self)
    obtain ⟨s', hrun, hclosed, hleaked, hin, hout⟩ := ih (s := { s.stopWatchers id with
        conns := update s.conns id none, closed := s.closed ++ [id] }) hids fun id' hid' => by
      have hne : id' ≠ id := fun heq => hnot (heq ▸ hid')
      change (update s.conns id none id').isSome
      rw [Function.update_of_ne hne]
      exact hlive id' (List.mem_cons_of_mem _ hid')
    refine ⟨s', ?_, ?_, hleaked, ?_, ?_⟩
    · rw [List.foldlM_cons, destroyConn_eq hk]
      exact hrun
    · rw [hclosed, List.append_assoc]
      rfl
    · intro id' hmem
      by_cases hid' : id' ∈ ids
      · exact hin id' hid'
      · obtain rfl : id' = id := (List.mem_cons.1 hmem).resolve_right hid'
        obtain ⟨hk', hw, hr⟩ := hout id' hid'
        exact ⟨hk'.trans (Function.update_self ..), hw.trans (Function.update_self ..),
          hr.trans (Function.update_self ..)⟩
    · intro id' hmem
      rw [List.mem_cons, not_or] at hmem
      obtain ⟨hk', hw, hr⟩ := hout id' hmem.2
      exact ⟨hk'.trans (Function.update_of_ne hmem.1 ..), hw.trans (Function.update_of_ne hmem.1 ..),
        hr.trans (Function.update_of_ne hmem.1 ..)⟩

theorem Inv.not_attached (h : s.Inv {}) (hall : ∀ r, r < s.nextRequest → r ∈ s.calledBack) {q : RequestInfo}
    {k : HttpConn} (ha : s.Attached {} r q id k) : False := by
  obtain ⟨hlt, honce⟩ := (h.requests r).live ha.request
  exact absurd (honce (hall r hlt)) nofun

/-- What the destructor frees: all but the connections of requests that are not answered yet. -/
theorem Inv.destroy (h : s.Inv {}) :
    ∃ s', s.destroy = some s' ∧
      ((∀ id, s'.conns id = none ∧ s'.writeOn id = false ∧ s'.readOn id = false) ↔
        ∀ r, r < s.nextRequest → r ∈ s.calledBack) ∧
      ∀ id, id < s.nextConn →
        (∃ r, s.Pending r id) ∨ s'.closed.count id = 1 ∧ id ∉ s'.leaked ∨ id ∉ s'.closed ∧ id ∈ s'.leaked := by
  have hlive : ∀ id ∈ s.connections, (s.conns id).isSome := fun id hmem => by
    obtain ⟨k, hk, -⟩ := (h.conns id).pooled hmem
    exact Option.isSome_of_eq_some hk
  obtain ⟨s', hrun, hclosed, hleaked, hin, hout⟩ :=
    foldlM_destroyConn (s := { s with connections := [] }) h.pool_nodup hlive
  refine ⟨s', hrun, ⟨fun hclean r hlt => ?_, fun hall id => ?_⟩, fun id hlt => ?_⟩
  · rcases (h.requests r).settled hlt with hsome | hmem
    · -- the connection of the request would be there still
      obtain ⟨q, hq⟩ := Option.isSome_iff_exists.1 hsome
      obtain ⟨id, k, ha⟩ := (h.requests r).link q hq List.not_mem_nil
      have hk : s'.conns id = some k := (hout id ha.not_pooled).1.trans ha.conn
      exact absurd ((hclean id).1.symm.trans hk) nofun
    · exact hmem
  · by_cases hmem : id ∈ s.connections
    · exact hin id hmem
    · obtain ⟨hk, hw, hr⟩ := hout id hmem
      -- outside of the pool it would be the connection of a request, and all of them were called back
      have hoff : s.conns id = none ∧ s.writeOn id = false ∧ s.readOn id = false := by
        refine ⟨?_, ?_, ?_⟩
        · cases hk : s.conns id with
          | none => rfl
          | some k =>
            obtain ⟨r, q, ha⟩ := (h.conns id).link k hk hmem nofun
            exact (h.not_attached hall ha).elim
        · refine Bool.eq_false_iff.2 fun hon => ?_
          obtain ⟨r, q, k, ha⟩ := h.watched (Or.inl hon)
          exact h.not_attached hall ha
        · refine Bool.eq_false_iff.2 fun hon => ?_
          obtain ⟨r, q, k, ha⟩ := h.watched (Or.inr hon)
          exact h.not_attached hall ha
      exact ⟨hk.trans hoff.1, hw.trans hoff.2.1, hr.trans hoff.2.2⟩
  · rw [hclosed, hleaked, List.count_append, List.mem_append, not_or]
    rcases h.accounted.conn id hlt with ⟨⟨hmem, -⟩ | ⟨-, hpending⟩, hnot, hkept⟩ | ⟨hnone, -, -, hgone⟩
    · right; left
      exact ⟨by rw [List.count_eq_zero_of_not_mem hnot, List.count_eq_one_of_mem h.pool_nodup hmem], hkept⟩
    · exact Or.inl hpending
    · have hmem : id ∉ s.connections := fun hin => by simpa [hnone] using hlive id hin
      refine Or.inr (hgone.imp (fun hone => ⟨?_, hone.2⟩) fun hleak => ⟨⟨hleak.1, hmem⟩, hleak.2⟩)
      rw [hone.1, List.count_eq_zero_of_not_mem hmem]

/-- **The destructor frees everything exactly if every request was called back.** A socket that is not one of a
waiting request is then closed, once, or was leaked by a failed `connect`. -/
theorem destroy_clean_iff (timed : Bool) (initNumConns : ℤ) (hint : initNumConns < 2 ^ 31) (blockSize : ℕ)
    (dials : ℕ → Dial) (es : List Event)
    (henabled : Lts.Along step Enabled (start timed initNumConns blockSize dials) es) (s : EvHttpClient)
    (hrun : Lts.run step (start timed initNumConns blockSize dials) es = some s) :
    ∃ s', s.destroy = some s' ∧
      ((∀ id, s'.conns id = none ∧ s'.writeOn id = false ∧ s'.readOn id = false) ↔
        ∀ r, r < s.nextRequest → r ∈ s.calledBack) ∧
      ∀ id, id < s.nextConn →
        (∃ r, s.Pending r id) ∨ s'.closed.count id = 1 ∧ id ∉ s'.leaked ∨ id ∉ s'.closed ∧ id ∈ s'.leaked :=
  (Lts.run_inv_along (I := fun s : EvHttpClient => s.Inv {})
    (fun _ _ _ h he hs' => h.of_step (elsewhere_none _) he hs') (inv_start timed hint blockSize dials) henabled
    hrun).destroy

theorem destroy_clean_answered :
    ∃ s s', Lts.run step (start true 1 8 fun _ => .connects) (exampleEvents.take 5) = some s ∧
      s.destroy = some s' ∧
      ∀ id, s'.conns id = none ∧ s'.writeOn id = false ∧ s'.readOn id = false := by
  have hsome : (Lts.run step (start true 1 8 fun _ => .connects) (exampleEvents.take 5)).isSome := by
    decide +kernel
  have hall : ∀ s ∈ Lts.run step (start true 1 8 fun _ => .connects) (exampleEvents.take 5),
      ∀ r, r < s.nextRequest → r ∈ s.calledBack := by decide +kernel
  obtain ⟨s', hdestroy, hclean, -⟩ := destroy_clean_iff true 1 (by decide +kernel) 8 (fun _ => .connects)
    (exampleEvents.take 5) (by decide +kernel) _ (Option.some_get hsome).symm
  exact ⟨_, s', (Option.some_get hsome).symm, hdestroy, hclean.2 (hall _ (Option.some_get hsome).symm)⟩

end Events

end EvHttpClient

end Spigeon
