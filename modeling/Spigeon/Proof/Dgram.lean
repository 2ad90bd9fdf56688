import Spigeon.Lib.Lts
import Spigeon.Proof.Recv
import Spigeon.Spec.Dgram

/-!
# What a UDP handler sees

`udp_read_io` reads to the start of the buffer, and adds the length of the datagram to that of the string.

* `udpRecv_overwrites`: what the buffer holds when the handler is called.
* `dgrams_seen`: the handler sees each datagram behind the earlier ones if the only datagram
  that is not empty is the first one, and otherwise by coincidence at most.
-/

namespace Spigeon

open CInt Lts

variable {c c' c₁ : UDPConnection} {e : DgramEvent}

/-- The event received a datagram and the handler is called once, with the datagram behind what the buffer held;
or it received nothing and the handler is not called. -/
def SeesDatagram (c : UDPConnection) (e : DgramEvent) : Prop :=
  ∃ c' handed, udpReadIo c e = some (c', handed) ∧
    match e.env.src with
    | .datagram d => ∃ c₁, handed = [c₁] ∧ c₁.ioBuffer.content = c.ioBuffer.content ++ d.take 1024
    | .again => handed = []
    | .error => handed = []

/-- A datagram that is empty, or comes to an empty buffer. -/
def Lands (c : UDPConnection) (e : DgramEvent) : Prop :=
  ∃ d, e.env.src = .datagram d ∧ (d = [] ∨ sdslen c.ioBuffer = 0)

/-- The bytes behind the string may happen to be those of the datagram: it has the byte of the
terminator, or is longer than the string. -/
def MayCoincide (c : UDPConnection) (e : DgramEvent) : Prop :=
  ∃ d, e.env.src = .datagram d ∧ (0 ∈ d ∨ sdslen c.ioBuffer < d.length)

/-- The string and what one more datagram can add fit the `int` fields. -/
def DgramFits (c : UDPConnection) : Prop := sdslen c.ioBuffer + 1024 + sdsMaxPrealloc < 2 ^ 31

instance (c : UDPConnection) : Decidable (DgramFits c) := inferInstanceAs (Decidable (_ < _))

/-- The buffer is well formed and terminated. -/
structure BufferOK (s : Sds) : Prop extends SdsOK s where
  terminated : s.buf[sdslen s]? = some 0

theorem start_buffer_ok (sock : Socket) (now : ℕ) (ssl : Bool) :
    BufferOK (UDPConnection.start sock now ssl).ioBuffer :=
  ⟨sdsempty_ok, rfl⟩

/-! ## One read -/

/-- More room leaves the bytes up to the terminator where they are. -/
theorem makeRoom_take (fill : ℕ → UInt8) {s : Sds} (h : SdsOK s) {n : ℕ}
    (hn : sdslen s + n + sdsMaxPrealloc < 2 ^ 31) :
    (sdsMakeRoomFor fill s n).buf.take (sdslen s + 1) = s.buf.take (sdslen s + 1) := by
  have hl := h.sdslen_eq
  have hb := h.block
  have ha := h.sdsavail_eq
  have hf := h.free
  unfold sdsMakeRoomFor
  by_cases hroom : n ≤ sdsavail s
  · rw [if_pos hroom]
  · rw [if_neg hroom]
    have hnew := newlen_bound hn
    dsimp only [sdshdrSize]
    rw [Nat.mod_eq_of_lt (by omega)]
    exact zrealloc_take fill (by omega) (by omega)

theorem makeRoom_buffer_ok (fill : ℕ → UInt8) {s : Sds} (h : BufferOK s) {n : ℕ}
    (hn : sdslen s + n + sdsMaxPrealloc < 2 ^ 31) : BufferOK (sdsMakeRoomFor fill s n) := by
  obtain ⟨hok, hlen, -, -⟩ := makeRoom_ok fill h.toSdsOK (Or.inr hn)
  have hsl : sdslen (sdsMakeRoomFor fill s n) = sdslen s := by unfold sdslen; rw [hlen]
  refine ⟨hok, ?_⟩
  have htake := congrArg (fun l => l[sdslen s]?) (makeRoom_take fill h.toSdsOK hn)
  simp only [List.getElem?_take_of_lt (Nat.lt_succ_self _)] at htake
  rw [hsl, htake, h.terminated]

/-- **What the handler finds in the buffer.** -/
theorem udpRecv_overwrites (e : DgramEnv) (h : BufferOK c.ioBuffer) (hfit : DgramFits c) :
    ∃ buf, udpRecv e c = some { c with ioBuffer := buf, lastInteraction := e.now } ∧ BufferOK buf ∧
      sdslen buf = sdslen c.ioBuffer + (sysReadDgram e.src 1024).bytes.length ∧
      buf.content = ((sysReadDgram e.src 1024).bytes ++
        (sdsMakeRoomFor e.fill c.ioBuffer 1024).buf.drop (sysReadDgram e.src 1024).bytes.length).take
          (sdslen c.ioBuffer + (sysReadDgram e.src 1024).bytes.length) := by
  obtain ⟨hok, hlen, hfree, -⟩ := makeRoom_ok e.fill h.toSdsOK (n := 1024) (Or.inr hfit)
  have hroom := makeRoom_buffer_ok e.fill h (n := 1024) hfit
  have hbytes := sysReadDgram_length e.src 1024
  have hread := dgramRead_cases e.src (show 1024 ≤ maxRwCount by decide)
  unfold udpRecv
  set room := sdsMakeRoomFor e.fill c.ioBuffer 1024
  set got := sysReadDgram e.src 1024
  have hsl : sdslen room = sdslen c.ioBuffer := by unfold sdslen; rw [hlen]
  dsimp only
  by_cases hnil : got.bytes = []
  · -- nothing is stored and the length stays
    have hneg : ¬ socketRead got > 0 := by rw [hnil] at hread; simp only [List.length_nil] at hread; omega
    rw [hnil, poke, Option.bind_some, if_neg hneg]
    refine ⟨room, rfl, hroom, hsl, ?_⟩
    rw [← hsl]
    rfl
  · have hpos := List.length_pos_iff.2 hnil
    have hcount := hread.resolve_right fun hno => hnil hno.2
    obtain ⟨b, s', hb, hincr, hs', hsl', hcont, hend⟩ := overwrite_ok hok got.bytes (by omega)
    rw [hb, Option.bind_some, hcount, if_pos (by omega), hincr]
    rw [hsl] at hsl' hcont
    exact ⟨s', rfl, ⟨hs', hend⟩, hsl', hcont⟩

theorem readIo_of_recv (h : udpRecv e.env c = some c₁) :
    udpReadIo c e = some (e.calls.foldl Call.runUdp c₁, [c₁]) := by
  unfold udpReadIo
  rw [h, Option.map_some]

/-- The handler is called once, so nothing was to be received for nothing to be seen. -/
theorem sees_iff (h : udpRecv e.env c = some c₁) :
    SeesDatagram c e ↔
      ∃ d, e.env.src = .datagram d ∧ c₁.ioBuffer.content = c.ioBuffer.content ++ d.take 1024 := by
  unfold SeesDatagram
  rw [readIo_of_recv h]
  cases e.env.src with
  | datagram d => simp
  | again => simp
  | error => simp

theorem sees_of_lands (h : BufferOK c.ioBuffer) (hfit : DgramFits c) (hlands : Lands c e) : SeesDatagram c e := by
  obtain ⟨buf, hrecv, -, -, hcont⟩ := udpRecv_overwrites e.env h hfit
  obtain ⟨d, hsrc, hd⟩ := hlands
  refine (sees_iff hrecv).2 ⟨d, hsrc, hcont.trans ?_⟩
  rw [hsrc]
  simp only [sysReadDgram, SysRead.bytes]
  rcases hd with rfl | hzero
  · obtain ⟨-, hlen, -, hroom⟩ := makeRoom_ok e.env.fill h.toSdsOK (n := 1024) (Or.inr hfit)
    have hsl : sdslen (sdsMakeRoomFor e.env.fill c.ioBuffer 1024) = sdslen c.ioBuffer := by
      unfold sdslen; rw [hlen]
    rw [← hroom, ← hsl]
    simp [Sds.content]
  · rw [hzero, Nat.zero_add, List.take_left']
    · simp [Sds.content, hzero]
    · rfl

theorem lands_of_sees (h : BufferOK c.ioBuffer) (hfit : DgramFits c) (hsees : SeesDatagram c e) :
    Lands c e ∨ MayCoincide c e := by
  obtain ⟨buf, hrecv, -, -, hcont⟩ := udpRecv_overwrites e.env h hfit
  obtain ⟨d, hsrc, hd⟩ := (sees_iff hrecv).1 hsees
  by_contra hno
  rw [not_or] at hno
  have hne : d ≠ [] := fun hnil => hno.1 ⟨d, hsrc, Or.inl hnil⟩
  have hzero : 0 ∉ d := fun hmem => hno.2 ⟨d, hsrc, Or.inl hmem⟩
  have hlong : d.length ≤ sdslen c.ioBuffer := not_lt.1 fun hlt => hno.2 ⟨d, hsrc, Or.inr hlt⟩
  have hpos := List.length_pos_iff.2 hne
  have hbs : (d.take 1024).length ≤ d.length ∧ 0 < (d.take 1024).length := by rw [List.length_take]; omega
  -- the byte behind the old string is still its terminator, and should be the first of the datagram
  have hroom := makeRoom_buffer_ok e.env.fill h (n := 1024) hfit
  obtain ⟨-, hlen, -, -⟩ := makeRoom_ok e.env.fill h.toSdsOK (n := 1024) (Or.inr hfit)
  have hsl : sdslen (sdsMakeRoomFor e.env.fill c.ioBuffer 1024) = sdslen c.ioBuffer := by unfold sdslen; rw [hlen]
  have hterm := hroom.terminated
  rw [hsl] at hterm
  rw [hsrc] at hcont
  simp only [sysReadDgram, SysRead.bytes] at hcont
  have hat := congrArg (fun l => l[sdslen c.ioBuffer]?) (hcont.symm.trans hd)
  rw [List.getElem?_take_of_lt (by omega), List.getElem?_append_right (by omega), List.getElem?_drop,
    Nat.add_sub_cancel' (by omega), hterm, List.getElem?_append_right (by rw [h.length_content]),
    h.length_content, Nat.sub_self] at hat
  exact hzero (List.mem_of_mem_take (List.mem_of_getElem? hat.symm))

/-! ## Runs -/

theorem runUdp_ioBuffer (calls : List Call) :
    ∀ c : UDPConnection, (calls.foldl Call.runUdp c).ioBuffer = c.ioBuffer := by
  induction calls with
  | nil => intro c; rfl
  | cons k ks ih =>
    intro c
    rw [List.foldl_cons, ih]
    cases k <;> rfl

/-- A read event leaves the buffer as the handler found it. -/
theorem step_buffer (h : BufferOK c.ioBuffer) (hfit : DgramFits c) (hst : c.step e = some c') :
    BufferOK c'.ioBuffer ∧
      sdslen c'.ioBuffer = sdslen c.ioBuffer + (sysReadDgram e.env.src 1024).bytes.length := by
  obtain ⟨buf, hrecv, hok, hlen, -⟩ := udpRecv_overwrites e.env h hfit
  unfold UDPConnection.step at hst
  rw [readIo_of_recv hrecv, Option.map_some, Option.some.injEq] at hst
  rw [← hst, runUdp_ioBuffer]
  exact ⟨hok, hlen⟩

/-- Of datagrams that land at most one adds to the string. -/
theorem step_lands (h : BufferOK c.ioBuffer ∧ sdslen c.ioBuffer ≤ 1024) (hlands : Lands c e)
    (hst : c.step e = some c') :
    BufferOK c'.ioBuffer ∧ sdslen c'.ioBuffer ≤ 1024 := by
  have hp : sdsMaxPrealloc = 1024 * 1024 := rfl
  obtain ⟨hok, hlen⟩ := step_buffer h.1 (by unfold DgramFits; omega) hst
  refine ⟨hok, ?_⟩
  obtain ⟨d, hsrc, rfl | hzero⟩ := hlands
  · rw [hlen, hsrc]
    exact h.2
  · have hle := sysReadDgram_length e.env.src 1024
    omega

/-- **What UDP handlers see.** In a run of read events on a UDP connection, with handlers that leave the
buffer alone, every datagram is seen behind the earlier ones and the handler is called for
nothing else, if every event receives a datagram and all of them are empty but the first one
that is not. There is no other way as long as the sizes fit, unless a datagram has a zero byte
or is longer than all before it together: then the bytes in the block may happen to be its own. -/
theorem dgrams_seen (sock : Socket) (now : ℕ) (ssl : Bool) (es : List DgramEvent) :
    (Along UDPConnection.step Lands (UDPConnection.start sock now ssl) es →
      Along UDPConnection.step SeesDatagram (UDPConnection.start sock now ssl) es) ∧
    (Along UDPConnection.step (fun c _ => DgramFits c) (UDPConnection.start sock now ssl) es →
      Along UDPConnection.step SeesDatagram (UDPConnection.start sock now ssl) es →
      Along UDPConnection.step (fun c e => Lands c e ∨ MayCoincide c e)
        (UDPConnection.start sock now ssl) es) := by
  have hp : sdsMaxPrealloc = 1024 * 1024 := rfl
  have hinit := start_buffer_ok sock now ssl
  constructor
  · refine Along.mono_inv (fun c e c' h hlands hst => step_lands h hlands hst) ?_ ⟨hinit, Nat.zero_le _⟩
    intro c e h hlands
    exact sees_of_lands h.1 (by unfold DgramFits; omega) hlands
  · intro hfit hsees
    refine Along.mono_inv (fun c e c' h hboth hst => (step_buffer h hboth.1 hst).1) ?_ hinit (hfit.and hsees)
    intro c e h hboth
    exact lands_of_sees h hboth.1 hboth.2

/-- A read event that receives a datagram. -/
def dgram (d : List UInt8) : DgramEvent := ⟨⟨fun _ => 0, .datagram d, 1⟩, []⟩

theorem dgrams_seen_first :
    Along UDPConnection.step SeesDatagram (UDPConnection.start ⟨0, .udp, 7⟩ 0 false)
      [dgram [104, 105], dgram [], dgram []] := by
  refine (dgrams_seen ⟨0, .udp, 7⟩ 0 false [dgram [104, 105], dgram [], dgram []]).1 ?_
  refine ⟨⟨[104, 105], rfl, Or.inr rfl⟩,
    fun c _ => ⟨⟨[], rfl, Or.inl rfl⟩, fun c' _ => ⟨⟨[], rfl, Or.inl rfl⟩, ?_⟩⟩⟩
  exact fun _ _ => trivial

/-- The handler sees the second datagram in place of the first one. -/
theorem second_dgram_overwrites :
    ∃ c c' c₁, run UDPConnection.step (UDPConnection.start ⟨0, .udp, 7⟩ 0 false) [dgram [104]] = some c ∧
      udpReadIo c (dgram [105]) = some (c', [c₁]) ∧ c.ioBuffer.content = [104] ∧ c₁.ioBuffer.content = [105, 0] ∧
      ¬ SeesDatagram c (dgram [105]) := by
  have hrun : ((run UDPConnection.step (UDPConnection.start ⟨0, .udp, 7⟩ 0 false) [dgram [104]]).bind fun c =>
      (udpReadIo c (dgram [105])).map fun r => (c.ioBuffer.content, r.2.map (·.ioBuffer.content))) =
        some ([104], [[105, 0]]) := by decide +kernel
  obtain ⟨c, hc, hread⟩ := Option.bind_eq_some_iff.1 hrun
  obtain ⟨⟨c', handed⟩, hio, hboth⟩ := Option.map_eq_some_iff.1 hread
  obtain ⟨hcont, hhanded⟩ := Prod.mk.inj hboth
  obtain ⟨c₁, rfl, hcont₁⟩ := List.map_eq_singleton_iff.1 hhanded
  refine ⟨c, c', c₁, hc, hio, hcont, hcont₁, ?_⟩
  rintro ⟨c₂, handed, hio', c₃, rfl, hcont₃⟩
  cases hio.symm.trans hio'
  rw [hcont, hcont₁] at hcont₃
  exact absurd hcont₃ (by decide)

end Spigeon
