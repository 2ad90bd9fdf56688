import Spigeon.Proof.HttpClient

/-!
# Responses of the HTTP client

The callbacks of the parser put a response together piece by piece, over several reads, with the events of other
requests in between. `Parsing` is what has been put together, without the client around it. The events of other
requests leave the request and its connection as they are (`Inv.step` with the two pinned), so that the response
is the one of the whole message (`response_of_message`).
-/

namespace Spigeon

namespace EvHttpClient

/-! ### Pieces of a message -/

namespace Parsing

def absorbs (p : Parsing) (cs : List ParserCall) : Option Parsing := cs.foldlM absorb p

variable {p : Parsing}

theorem absorbs_cons (c : ParserCall) (cs : List ParserCall) :
    p.absorbs (c :: cs) = (p.absorb c).bind fun p' => p'.absorbs cs :=
  List.foldlM_cons ..

theorem absorbs_append (cs cs' : List ParserCall) :
    p.absorbs (cs ++ cs') = (p.absorbs cs).bind fun p' => p'.absorbs cs' :=
  List.foldlM_append ..

theorem absorbs_field (hp : p.headerState = .field) (fs : List (List UInt8)) :
    p.absorbs (fs.map .headerField) = some { p with headerField := p.headerField ++ fs.flatten } := by
  induction fs generalizing p with
  | nil => simp [absorbs]
  | cons f fs ih =>
    have hc : p.absorb (.headerField f) = some { p with headerField := p.headerField ++ f } := by rw [absorb, hp]
    rw [List.map_cons, absorbs_cons, hc, Option.bind_some,
      ih (p := { p with headerField := p.headerField ++ f }) hp, List.flatten_cons, List.append_assoc]

theorem absorbs_value (hp : p.headerState = .value) (vs : List (List UInt8)) :
    p.absorbs (vs.map .headerValue) = some { p with headerValue := p.headerValue ++ vs.flatten } := by
  induction vs generalizing p with
  | nil => simp [absorbs]
  | cons v vs ih =>
    have hc : p.absorb (.headerValue v) = some { p with headerValue := p.headerValue ++ v } := by
      rw [absorb, if_neg (by rw [hp]; decide), hp]
    rw [List.map_cons, absorbs_cons, hc, Option.bind_some,
      ih (p := { p with headerValue := p.headerValue ++ v }) hp, List.flatten_cons, List.append_assoc]

theorem absorbs_body (bs : List (List UInt8)) :
    p.absorbs (bs.map .body) = some { p with body := p.body ++ bs.flatten } := by
  induction bs generalizing p with
  | nil => simp [absorbs]
  | cons b bs ih =>
    rw [List.map_cons, absorbs_cons, absorb, Option.bind_some, ih, List.flatten_cons, List.append_assoc]

/-- The values of a header whose name is complete. -/
theorem absorbs_values (hp : p.headerState = .field) (hvalue : p.headerValue = []) {vs : List (List UInt8)}
    (hvs : vs ≠ []) :
    p.absorbs (vs.map .headerValue) = some { p with headerState := .value, headerValue := vs.flatten } := by
  obtain ⟨v, vs, rfl⟩ := List.exists_cons_of_ne_nil hvs
  have hc : p.absorb (.headerValue v) = some { p with headerState := .value, headerValue := v } := by
    rw [absorb, if_neg (by rw [hp]; decide), hvalue, List.nil_append]
  rw [List.map_cons, absorbs_cons, hc, Option.bind_some, absorbs_value rfl, List.flatten_cons]

/-- **A header behind another one**, which is flushed. -/
theorem absorbs_header (hp : p.headerState = .value) {fs vs : List (List UInt8)} (hfs : fs ≠ []) (hvs : vs ≠ []) :
    p.absorbs (fs.map .headerField ++ vs.map .headerValue) =
      some { p.flush with headerState := .value, headerField := fs.flatten, headerValue := vs.flatten } := by
  obtain ⟨f, fs, rfl⟩ := List.exists_cons_of_ne_nil hfs
  have hc : p.absorb (.headerField f) = some { p.flush with headerState := .field, headerField := f } := by
    rw [absorb, hp]
  rw [absorbs_append, List.map_cons, absorbs_cons, hc, Option.bind_some, absorbs_field rfl, Option.bind_some,
    absorbs_values rfl rfl hvs, List.flatten_cons]

/-- The headers behind a first one. The last one of them is not flushed yet. -/
theorem absorbs_headers (hp : p.headerState = .value) {hs : List (List (List UInt8) × List (List UInt8))}
    (hne : ∀ h ∈ hs, h.1 ≠ [] ∧ h.2 ≠ []) :
    ∃ p', p.absorbs (hs.flatMap fun h => h.1.map .headerField ++ h.2.map .headerValue) = some p' ∧
      p'.flush.response =
        (hs.map fun h => (h.1.flatten, h.2.flatten)).foldl (fun r h => r.setHeader h.1 h.2) p.flush.response ∧
      p'.body = p.body ∧ p'.messageBegun = p.messageBegun := by
  induction hs generalizing p with
  | nil => exact ⟨p, rfl, rfl, rfl, rfl⟩
  | cons h hs ih =>
    obtain ⟨hfs, hvs⟩ := hne h List.mem_cons_self
    obtain ⟨p', hrest, hresponse, hbody, hbegun⟩ := ih
      (p := { p.flush with headerState := .value, headerField := h.1.flatten, headerValue := h.2.flatten }) rfl
      fun h' hh' => hne h' (List.mem_cons_of_mem _ hh')
    refine ⟨p', ?_, hresponse, hbody, hbegun⟩
    rw [List.flatMap_cons, absorbs_append, absorbs_header hp hfs hvs, Option.bind_some, hrest]

/-- **All headers of a message**, flushed at their end. -/
theorem absorbs_allHeaders (hstate : p.headerState = .field) (hfield : p.headerField = [])
    (hvalue : p.headerValue = []) {hs : List (List (List UInt8) × List (List UInt8))}
    (hne : ∀ h ∈ hs, h.1 ≠ [] ∧ h.2 ≠ []) :
    ∃ p', p.absorbs (hs.flatMap fun h => h.1.map .headerField ++ h.2.map .headerValue) = some p' ∧
      p'.flush.response =
        (if hs.map (fun h => (h.1.flatten, h.2.flatten)) = [] then [([], [])]
          else hs.map fun h => (h.1.flatten, h.2.flatten)).foldl (fun r h => r.setHeader h.1 h.2) p.response ∧
      p'.body = p.body ∧ p'.messageBegun = p.messageBegun := by
  cases hs with
  | nil =>
    refine ⟨p, rfl, ?_, rfl, rfl⟩
    simp [flush, hfield, hvalue]
  | cons h hs =>
    obtain ⟨hfs, hvs⟩ := hne h List.mem_cons_self
    have hfirst : p.absorbs (h.1.map .headerField ++ h.2.map .headerValue) =
        some { p with headerState := .value, headerField := h.1.flatten, headerValue := h.2.flatten } := by
      rw [absorbs_append, absorbs_field hstate, Option.bind_some,
        absorbs_values (p := { p with headerField := p.headerField ++ h.1.flatten }) hstate hvalue hvs, hfield,
        List.nil_append]
    obtain ⟨p', hrest, hresponse, hbody, hbegun⟩ := absorbs_headers
      (p := { p with headerState := .value, headerField := h.1.flatten, headerValue := h.2.flatten }) rfl
      fun h' hh' => hne h' (List.mem_cons_of_mem _ hh')
    refine ⟨p', ?_, ?_, hbody, hbegun⟩
    · rw [List.flatMap_cons, absorbs_append, hfirst, Option.bind_some, hrest]
    · rw [hresponse]
      simp [flush]

end Parsing

end EvHttpClient

/-- **A message in pieces is put together.** Only its end is left. -/
theorem HttpMessage.Told.absorbs {m : HttpMessage} {cs : List EvHttpClient.ParserCall} (h : m.Told cs)
    (old : ResponseInfo) :
    ∃ cs' p, cs = cs' ++ [.messageComplete m.statusCode] ∧
      EvHttpClient.Parsing.absorbs { response := old } cs' = some p ∧
      m.answer old = { p.response with timeout := false, code := m.statusCode, response := p.body } ∧
      p.headerState = .done ∧ p.messageBegun = true := by
  obtain ⟨headers, body, hne, hheaders, hbody, rfl⟩ := h
  obtain ⟨p, hp, hresponse, hpbody, hpbegun⟩ := EvHttpClient.Parsing.absorbs_allHeaders
    (p := { response := old, messageBegun := true }) rfl rfl rfl hne
  refine ⟨_, { p.flush with headerState := .done, body := m.body }, rfl, ?_, ?_, rfl, hpbegun⟩
  · have hbegin : EvHttpClient.Parsing.absorb { response := old } .messageBegin =
        some { response := old, messageBegun := true } := rfl
    have hend : p.absorb .headersComplete = some { p.flush with headerState := .done } := by
      rw [EvHttpClient.Parsing.absorb, hpbegun]
      rfl
    have hpieces : p.body ++ body.flatten = m.body := by
      rw [hpbody, hbody]
      rfl
    rw [EvHttpClient.Parsing.absorbs_append, EvHttpClient.Parsing.absorbs_cons, hbegin, Option.bind_some, hp,
      Option.bind_some, EvHttpClient.Parsing.absorbs_cons, hend, Option.bind_some,
      EvHttpClient.Parsing.absorbs_body]
    exact congrArg (fun bs => some { p.flush with headerState := .done, body := bs }) hpieces
  · rw [HttpMessage.answer, hheaders, ← hresponse]

namespace EvHttpClient

open Function (update)

/-! ### Pieces on a connection -/

/-- The request is on the connection, with this part of its response. -/
def Assembling (s : EvHttpClient) (r id : ℕ) (p : Parsing) : Prop :=
  s.Inv {} ∧ ∃ q k, s.Attached {} r q id k ∧ k.failed = false ∧ Parsing.of q k = p

section Assembling

variable {s s' : EvHttpClient} {r id : ℕ} {p p' : Parsing} {q : RequestInfo} {k : HttpConn}

/-- A callback that is absorbed. -/
theorem Assembling.parserCall (h : s.Assembling r id p) (again : List UserCall) {c : ParserCall}
    (hc : p.absorb c = some p') :
    ∃ s', s.parserCall id again c = some (false, s') ∧ s'.Assembling r id p' := by
  obtain ⟨hinv, q, k, ha, hfailed, rfl⟩ := h
  obtain ⟨s', q', k', hcall, hinv', ha', hof, hfailed', -⟩ := hinv.absorb ha not_pinned again hc
  exact ⟨s', hcall, hinv', q', k', ha', hfailed'.trans hfailed, hof⟩

theorem Assembling.parserCalls (h : s.Assembling r id p) (again : List UserCall) {cs : List ParserCall}
    (hcs : p.absorbs cs = some p') (rest : List ParserCall) :
    ∃ s' : EvHttpClient, s.parserCalls id again false (cs ++ rest) = s'.parserCalls id again false rest ∧
      s'.Assembling r id p' := by
  induction cs generalizing s p with
  | nil =>
    cases hcs
    exact ⟨s, rfl, h⟩
  | cons c cs ih =>
    rw [Parsing.absorbs_cons] at hcs
    obtain ⟨p₁, hc, hcs⟩ := Option.bind_eq_some_iff.1 hcs
    obtain ⟨s₁, hcall, h₁⟩ := h.parserCall again hc
    obtain ⟨s', hcalls, h'⟩ := ih h₁ hcs
    refine ⟨s', ?_, h'⟩
    rw [List.cons_append, EvHttpClient.parserCalls, hcall, ← hcalls]
    rfl

/-- What a read does on a connection whose parser is not in an error state. -/
theorem readCb_eq (hk : s.conns id = some k) (hfailed : k.failed = false) {rcv : Received}
    (hwell : rcv.malformed = false) {dial : Dial} {again : List UserCall}
    (hread : s.readCb id (.ok rcv) dial again = some s') :
    ∃ s₁ k₁, s.parserCalls id again false rcv.parsed = some s₁ ∧ s₁.conns id = some k₁ ∧
      (if k₁.messageComplete then s₁.returnConn id else some s₁) = some s' := by
  simp only [readCb, hk, Option.bind_eq_bind, Option.bind_some] at hread
  split at hread
  · obtain ⟨s₁, hexecute, hread⟩ := Option.bind_eq_some_iff.1 hread
    obtain ⟨k₁, hk₁, hread⟩ := Option.bind_eq_some_iff.1 hread
    refine ⟨s₁, k₁, ?_, hk₁, hread⟩
    simpa [parserExecute, hk, hfailed, hwell] using hexecute
  · cases hread

/-- **A piece of the message is read.** -/
theorem Assembling.read (h : s.Assembling r id p) {rcv : Received} (hwell : rcv.malformed = false) {dial : Dial}
    {again : List UserCall} (hcs : p.absorbs rcv.parsed = some p')
    (hread : s.readCb id (.ok rcv) dial again = some s') :
    s'.Assembling r id p' := by
  obtain ⟨s₁, hcalls, h₁⟩ := h.parserCalls again hcs []
  obtain ⟨-, q, k, ha, hfailed, -⟩ := h
  obtain ⟨s₂, k₁, hcalls', hk₁, hend⟩ := readCb_eq ha.conn hfailed hwell hread
  rw [List.append_nil] at hcalls
  cases hcalls.symm.trans hcalls'
  have hincomplete : k₁.messageComplete = false := by
    obtain ⟨-, q₁, k₂, ha₁, -⟩ := h₁
    cases ha₁.conn.symm.trans hk₁
    exact ha₁.incomplete nofun
  rw [hincomplete] at hend
  cases hend
  exact h₁

theorem destroyConn_calls (hdestroy : s.destroyConn id = some s') : s'.calls = s.calls := by
  rw [destroyConn, Option.bind_eq_bind] at hdestroy
  obtain ⟨k, -, hdestroy⟩ := Option.bind_eq_some_iff.1 hdestroy
  cases hdestroy
  rfl

theorem returnConn_calls (hreturn : s.returnConn id = some s') : s'.calls = s.calls := by
  rw [returnConn, Option.bind_eq_bind] at hreturn
  obtain ⟨k, -, hreturn⟩ := Option.bind_eq_some_iff.1 hreturn
  dsimp only at hreturn
  split at hreturn
  · cases hreturn
    rfl
  · have hcalls := destroyConn_calls hreturn
    exact hcalls

/-- **The end of the message is read**, and the user is called back with the response. -/
theorem Assembling.last (h : s.Assembling r id p) {rcv : Received} (hwell : rcv.malformed = false) {dial : Dial}
    {again : List UserCall} {cs : List ParserCall} {statusCode : ℤ}
    (hparsed : rcv.parsed = cs ++ [.messageComplete statusCode]) (hcs : p.absorbs cs = some p')
    (hbegun : p'.messageBegun = true)
    (hread : s.readCb id (.ok rcv) dial again = some s') :
    (r, .response { p'.response with timeout := false, code := statusCode, response := p'.body }) ∈ s'.calls := by
  obtain ⟨s₁, hcalls, hinv, q₁, k₁, ha₁, -, rfl⟩ := h.parserCalls again hcs [.messageComplete statusCode]
  obtain ⟨-, q, k, ha, hfailed, -⟩ := h
  obtain ⟨s₃, k₃, hcalls', hk₃, hend⟩ := readCb_eq ha.conn hfailed hwell hread
  have hlast : s₁.parserCalls id again false [.messageComplete statusCode] =
      s₁.messageCompleteCb id k₁ statusCode again := by
    simp only [EvHttpClient.parserCalls, EvHttpClient.parserCall, ha₁.conn, Option.bind_eq_bind, Option.bind_some]
    cases s₁.messageCompleteCb id k₁ statusCode again <;> rfl
  rw [hparsed, hcalls, hlast] at hcalls'
  -- the callback has come back, so there is one
  have hcb : q₁.cb ≠ .null := fun hnull => by
    rw [messageCompleteCb_null ha₁.request ha₁.to_request hnull] at hcalls'
    cases hcalls'
  obtain ⟨s₂, hmessage, -, hmem⟩ := hinv.messageComplete ha₁ not_pinned hbegun hcb statusCode again
  cases hmessage.symm.trans hcalls'
  split at hend
  · rw [returnConn_calls hend]
    exact hmem
  · cases hend
    exact hmem

/-! ### The events of other requests -/

/-- Another request is pinned. -/
theorem Inv.repin {pin pin' : Option Pin} (h : s.Inv { pinned := pin })
    (hpin : ∀ p ∈ pin', s.Attached { pinned := pin } p.r p.q p.id p.k) : s.Inv { pinned := pin' } := by
  have hr : ∀ r, SameRequest s s { pinned := pin } { pinned := pin' } r := fun r =>
    ⟨rfl, Or.inl, Iff.rfl, Iff.rfl, Iff.rfl, Iff.rfl⟩
  have hid : ∀ id, SameConn s s { pinned := pin } { pinned := pin' } id := fun id =>
    ⟨rfl, rfl, rfl, Iff.rfl, Iff.rfl, Iff.rfl, Iff.rfl, Iff.rfl⟩
  exact ⟨fun r => (h.requests r).change (hr r) fun _ => hid _,
    fun id => (h.conns id).change (hid id) fun _ => hr _, fun p hp => (hpin p hp).change (hr _) (hid _),
    h.pool_nodup, h.pool_le, h.calls_nodup, h.closed_nodup⟩

/-- **An event of another request** changes nothing. -/
theorem Assembling.elsewhere (h : s.Assembling r id p) {e : Event} (henabled : s.Enabled e)
    (he : ∀ q k, Elsewhere (some ⟨r, q, id, k⟩) e) (hstep : s.step e = some s') : s'.Assembling r id p := by
  obtain ⟨hinv, q, k, ha, hfailed, hof⟩ := h
  have hpinned : s.Inv { pinned := some ⟨r, q, id, k⟩ } := hinv.repin fun p hp => by
    cases hp
    exact ha
  have hinv' := hpinned.of_step (he q k) henabled hstep
  refine ⟨hinv'.repin not_pinned, q, k, ?_, hfailed, hof⟩
  exact { hinv'.pinned _ rfl with }

theorem Inv.attached_of (h : s.Inv {}) (hq : s.requests r = some q) (hto : q.conn = some id)
    (hk : s.conns id = some k) :
    s.Attached {} r q id k := by
  obtain ⟨id', k', ha⟩ := (h.requests r).link q hq List.not_mem_nil
  cases ha.to_conn.symm.trans hto
  cases ha.conn.symm.trans hk
  exact ha

/-- A part of the request is sent. -/
theorem Assembling.write (h : s.Assembling r id p) {n : ℕ} {dial : Dial} {again : List UserCall}
    (henabled : s.Enabled (.writable id (.ok n) dial again)) (hstep : s.writeCb id (.ok n) dial again = some s') :
    s'.Assembling r id p := by
  obtain ⟨hinv, q, k, ha, hfailed, hof⟩ := h
  have hinv' : s'.Inv {} := hinv.of_step (elsewhere_none _) henabled hstep
  have hcells : s'.requests r = some q ∧ ∃ n w,
      s'.conns id = some { k with requestBytesSent := n, wire := w } := by
    simp only [EvHttpClient.writeCb, ha.conn, ha.to_request, ha.request, Option.bind_eq_bind,
      Option.bind_some] at hstep
    split at hstep
    · cases hstep
      exact ⟨ha.request, _, _, (Function.update_self ..).trans (by rw [ha.to_request])⟩
    · cases hstep
      exact ⟨ha.request, _, _, (Function.update_self ..).trans (by rw [ha.to_request])⟩
  obtain ⟨hq, n', w, hk⟩ := hcells
  exact ⟨hinv', q, _, hinv'.attached_of hq ha.to_conn hk, hfailed, hof⟩

theorem Assembling.step (h : s.Assembling r id p) {e : Event} (henabled : s.Enabled e) (hfair : e.Fair r id)
    (hcs : p.absorbs (e.parsedOn id) = some p') (hstep : s.step e = some s') : s'.Assembling r id p' := by
  have hnone : e.parsedOn id = [] → p' = p := fun hnil => by
    rw [hnil] at hcs
    cases hcs
    rfl
  cases e with
  | call | writeError | readError =>
    rw [hnone rfl]
    exact h.elsewhere henabled (fun _ _ => trivial) hstep
  | timeout r' again =>
    rw [hnone rfl]
    refine h.elsewhere henabled (fun q k p hp => ?_) hstep
    cases hp
    exact Ne.symm hfair
  | writable id' sent dial again =>
    rw [hnone rfl]
    by_cases hid : id' = id
    · subst hid
      cases sent with
      | error errno => exact absurd rfl hfair
      | ok n => exact h.write henabled hstep
    · refine h.elsewhere henabled (fun q k p hp => ?_) hstep
      cases hp
      exact Ne.symm hid
  | readable id' received dial again =>
    -- only what is read on the own connection gets into the response
    by_cases hid : id' = id
    · subst hid
      cases received with
      | error errno => exact absurd rfl hfair
      | ok rcv =>
        rw [Event.parsedOn, if_pos rfl] at hcs
        have hread : s.readCb id' (.ok rcv) dial again = some s' := hstep
        exact h.read (hfair rfl) hcs hread
    · have hnil : Event.parsedOn id (.readable id' received dial again) = [] := by
        cases received with
        | error errno => rfl
        | ok rcv => exact if_neg hid
      rw [hnone hnil]
      refine h.elsewhere henabled (fun q k p hp => ?_) hstep
      cases hp
      exact Ne.symm hid

theorem Assembling.run (h : s.Assembling r id p) {es : List Event}
    (henabled : Lts.Along EvHttpClient.step Enabled s es) (hfair : ∀ e ∈ es, e.Fair r id)
    (hcs : p.absorbs (es.flatMap (Event.parsedOn id)) = some p')
    (hrun : Lts.run EvHttpClient.step s es = some s') : s'.Assembling r id p' := by
  induction es generalizing s p with
  | nil =>
    cases hrun
    cases hcs
    exact h
  | cons e es ih =>
    obtain ⟨s₁, hstep, hrun⟩ := Lts.run_cons.1 hrun
    rw [List.flatMap_cons, Parsing.absorbs_append] at hcs
    obtain ⟨p₁, hp₁, hcs⟩ := Option.bind_eq_some_iff.1 hcs
    exact ih (h.step henabled.1 (hfair e List.mem_cons_self) hp₁ hstep) (henabled.2 s₁ hstep)
      (fun e' he' => hfair e' (List.mem_cons_of_mem _ he')) hcs hrun

/-- A message whose last callbacks are these ends in them. -/
theorem told_split {m : HttpMessage} {cs last : List ParserCall} (h : m.Told (cs ++ last)) (hlast : last ≠ [])
    (old : ResponseInfo) :
    ∃ last' p p', last = last' ++ [.messageComplete m.statusCode] ∧
      Parsing.absorbs { response := old } cs = some p ∧ p.absorbs last' = some p' ∧
      m.answer old = { p'.response with timeout := false, code := m.statusCode, response := p'.body } ∧
      p'.messageBegun = true := by
  obtain ⟨cs', p', hcs', habsorbs, hanswer, -, hbegun⟩ := h.absorbs old
  obtain ⟨last', c, rfl⟩ := (List.eq_nil_or_concat' last).resolve_left hlast
  rw [← List.append_assoc] at hcs'
  obtain ⟨rfl, hc⟩ := List.append_inj' hcs' rfl
  cases hc
  rw [Parsing.absorbs_append] at habsorbs
  obtain ⟨p, hp, hp'⟩ := Option.bind_eq_some_iff.1 habsorbs
  exact ⟨last', p, p', rfl, hp, hp', hanswer, hbegun⟩

/-- **A response does not depend on how it is read.** From a state in which nothing of the answer was read, the
message comes in any pieces, in any number of reads, with any events of other requests in between. The user is
given the whole message. -/
theorem response_of_message (timed : Bool) (initNumConns : ℤ) (hint : initNumConns < 2 ^ 31) (blockSize : ℕ)
    (dials : ℕ → Dial) (es es' : List Event) (r id : ℕ) (rcv : Received) (dial : Dial) (again : List UserCall)
    (m : HttpMessage) (old : ResponseInfo) (s s' : EvHttpClient)
    (henabled : Lts.Along step Enabled (start timed initNumConns blockSize dials)
      (es ++ (es' ++ [.readable id (.ok rcv) dial again])))
    (hs : Lts.run step (start timed initNumConns blockSize dials) es = some s) (hunread : s.Unread r id old)
    (hfair : ∀ e ∈ es', e.Fair r id) (hwell : rcv.malformed = false)
    (hm : m.Told (es'.flatMap (Event.parsedOn id) ++ rcv.parsed)) (hlast : rcv.parsed ≠ [])
    (hrun : Lts.run step s (es' ++ [.readable id (.ok rcv) dial again]) = some s') :
    (r, .response (m.answer old)) ∈ s'.calls := by
  have hinv : s.Inv {} := Lts.run_inv_along (I := fun s : EvHttpClient => s.Inv {})
    (fun _ _ _ h he hs' => h.of_step (elsewhere_none _) he hs')
    (inv_start timed hint blockSize dials) henabled.left hs
  obtain ⟨⟨q, hq, hto, rfl⟩, k, hk, hstate, hfield, hvalue, hbody, hbegun, hfailed⟩ := hunread
  have h : s.Assembling r id { response := q.response } := by
    refine ⟨hinv, q, k, hinv.attached_of hq hto hk, hfailed, ?_⟩
    rw [Parsing.of, hstate, hfield, hvalue, hbody, hbegun]
  obtain ⟨last, p, p', hparsed, hcs, hcs', hanswer, hbegun'⟩ := told_split hm hlast q.response
  -- all reads but the last one assemble the message, and the last one delivers it
  obtain ⟨s₁, hrun₁, hrun₂⟩ := Lts.run_append.1 hrun
  obtain ⟨s₂, hread, hend⟩ := Lts.run_cons.1 hrun₂
  cases hend
  have h₁ := h.run (henabled.suffix hs).left hfair hcs hrun₁
  have hread' : s₁.readCb id (.ok rcv) dial again = some s' := hread
  rw [hanswer]
  exact h₁.last hwell hparsed hcs' hbegun' hread'

def twoRequests : List Event :=
  [.call (.makeRequest .user [71] .connects), .call (.makeRequest .user [80] .connects)]

/-- The second request fails while the answer to the first one is read, and is sent again. -/
def partOfAnswer : List Event :=
  [.writable 0 (.ok 1) .connects [], .writable 1 (.ok 1) .connects [],
    .readable 0 (.ok ⟨5, [.messageBegin, .headerField [65], .headerField [66]], false⟩) .connects [],
    .readable 1 (.error 104) .connects []]

def restOfAnswer : Received := ⟨3, [.headerValue [67], .headersComplete, .body [1], .messageComplete 200], false⟩

theorem response_of_message_twoRequests :
    ∃ s', Lts.run step (start false 2 8 fun _ => .connects)
        (twoRequests ++ (partOfAnswer ++ [.readable 0 (.ok restOfAnswer) .connects []])) = some s' ∧
      (0, .response { code := 200, headers := [([65, 66], [67])], response := [1] }) ∈ s'.calls := by
  have hsome : (Lts.run step (start false 2 8 fun _ => .connects)
      (twoRequests ++ (partOfAnswer ++ [.readable 0 (.ok restOfAnswer) .connects []]))).isSome := by
      decide +kernel
  have hunread : ∀ s ∈ Lts.run step (start false 2 8 fun _ => .connects) twoRequests, s.Unread 0 0 {} := by
    decide +kernel
  obtain ⟨s', hs'⟩ := Option.isSome_iff_exists.1 hsome
  obtain ⟨s, hs, hrun⟩ := Lts.run_append.1 hs'
  exact ⟨s', hs', response_of_message false 2 (by decide +kernel) 8 (fun _ => .connects) twoRequests partOfAnswer
    0 0 restOfAnswer .connects [] ⟨[([65, 66], [67])], [1], 200⟩ {} s s' (by decide +kernel) hs (hunread s hs)
    (by simp [partOfAnswer, Event.Fair]) rfl ⟨[([[65], [66]], [[67]])], [[1]], by decide +kernel, rfl, rfl, rfl⟩
    (by decide +kernel) hrun⟩

end Assembling

end EvHttpClient

end Spigeon
