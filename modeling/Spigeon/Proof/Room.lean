import Spigeon.Proof.Input

/-!
# The room that `tcp_read_io` reserves

The expected size is a `size_t` that the handler sets, often from a header the peer sent. It goes
through an `int` on its way to `sdsMakeRoomFor` and to `read`, which take a `size_t` again, and the
header of the string counts in `int`.

* `readRoom_iff`: for a well-formed string, the sizes that leave enough room.
* `read_room_iff`: the same in every state of a run of read events.
-/

namespace Spigeon

open CInt Lts

variable {σ : Type}

/-- The handler has asked for `n` bytes. -/
def TCPConnection.expecting (c : TCPConnection) (n : ℕ) : TCPConnection := { c with bytesExpected := n }

/-- The buffer in which `tcp_read_io` has reserved the room for its read. -/
def TCPConnection.reserved (c : TCPConnection) (fill : ℕ → UInt8) : Sds :=
  sdsMakeRoomFor fill c.ioBuffer (toSize c.rlen)

/-- The length given to `read` is allocated behind the string, the header accounts for the block, and
`sdsIncrLen` can count whatever the read returns. -/
structure ReadRoom (fill : ℕ → UInt8) (c : TCPConnection) : Prop where
  read : toSize c.rlen ≤ (c.reserved fill).buf.length - sdslen c.ioBuffer
  len : 0 ≤ (c.reserved fill).len
  free : 0 ≤ (c.reserved fill).free
  block : ((c.reserved fill).buf.length : ℤ) = (c.reserved fill).len + (c.reserved fill).free + 1
  incr : ∀ r, 0 ≤ r → r ≤ c.rlen → (sdsIncrLen (c.reserved fill) r).isSome = true

/-- As an `int` the size is not negative; it is there already, or the string is short, or the `int`
field `free` has room for it and what `sdsMakeRoomFor` adds and the `int` field `len` has room for the
string with it. -/
def GivesRoom (c : TCPConnection) : Prop :=
  0 ≤ c.rlen ∧ (c.rlen ≤ c.ioBuffer.free ∨ sdslen c.ioBuffer + c.rlen < sdsMaxPrealloc ∨
    c.rlen + sdsMaxPrealloc < 2 ^ 31 ∧ sdslen c.ioBuffer + c.rlen < 2 ^ 31)

instance (c : TCPConnection) : Decidable (GivesRoom c) := inferInstanceAs (Decidable (_ ∧ _))

/-! ## One request -/

/-- The block after a request that the string has no room for. -/
theorem makeRoom_grown (fill : ℕ → UInt8) {s : Sds} {n : ℕ} (h : ¬ n ≤ sdsavail s) :
    (sdsMakeRoomFor fill s n).buf.length = (sdshdrSize + sdsNewlen (sdslen s) n + 1) % 2 ^ 64 - sdshdrSize ∧
      (sdsMakeRoomFor fill s n).free = toInt ((sdsNewlen (sdslen s) n : ℤ) - sdslen s) ∧
      (sdsMakeRoomFor fill s n).len = s.len := by
  unfold sdsMakeRoomFor
  rw [if_neg h]
  exact ⟨zrealloc_length _ _ _, rfl, rfl⟩

/-- With enough room in a block that the header accounts for, a result can be counted if `len` can hold the sum.
Otherwise `len` is negative, and the terminator is stored before the block. -/
theorem incrLen_isSome_iff {s : Sds} (hlen : 0 ≤ s.len) (hint : s.len < 2 ^ 31) (hfree : s.free < 2 ^ 31)
    (hblock : (s.buf.length : ℤ) = s.len + s.free + 1) {r : ℤ} (h0 : 0 ≤ r) (hr : r ≤ s.free) :
    (sdsIncrLen s r).isSome = true ↔ s.len + r < 2 ^ 31 := by
  unfold sdsIncrLen
  dsimp only
  rw [if_neg (by omega), toInt_of_range (z := s.free - r) (by omega) (by omega)]
  by_cases hsum : s.len + r < 2 ^ 31
  · rw [toInt_of_range (by omega) hsum, if_neg (by omega),
      poke_some (by simp only [List.length_cons, List.length_nil]; omega)]
    exact iff_of_true rfl hsum
  · have hwrap : toInt (s.len + r) < 0 := by unfold toInt; dsimp only; split <;> omega
    rw [if_pos (Or.inr hwrap)]
    exact iff_of_false (by decide) hsum

/-- A size that is negative as an `int` is a request for almost all of the address space. -/
theorem not_readRoom_of_neg (fill : ℕ → UInt8) {c : TCPConnection} (hs : SdsOK c.ioBuffer) (hneg : c.rlen < 0) :
    ¬ ReadRoom fill c := by
  intro h
  have hread := h.read
  have hfree := h.free
  have hlo := (rlen_range c).1
  have hl := hs.sdslen_eq
  have ha := hs.sdsavail_eq
  have hf := hs.free
  have hfit := hs.fits
  have hsize : toSize c.rlen = (c.rlen + 2 ^ 64).toNat := by unfold toSize; omega
  obtain ⟨hbuf, hfree', -⟩ := makeRoom_grown fill (s := c.ioBuffer) (n := toSize c.rlen) (by omega)
  unfold TCPConnection.reserved at hread hfree
  rw [hbuf] at hread
  rw [hfree'] at hfree
  have hp : sdsMaxPrealloc = 1024 * 1024 := rfl
  have hh : sdshdrSize = 8 := rfl
  -- the sum wraps and the block is short, or the block is long and `free` is negative
  unfold sdsNewlen at hread hfree
  dsimp only at hread hfree
  by_cases hc : (sdslen c.ioBuffer + toSize c.rlen) % 2 ^ 64 < sdsMaxPrealloc
  · rw [if_pos hc] at hread
    omega
  · rw [if_neg hc] at hread hfree
    unfold toInt at hfree
    dsimp only at hfree
    split at hfree <;> omega

/-- Where the string has the room already, nothing is allocated. -/
theorem readRoom_of_avail (fill : ℕ → UInt8) {c : TCPConnection} (hs : SdsOK c.ioBuffer) (h0 : 0 ≤ c.rlen)
    (hfits : c.rlen ≤ c.ioBuffer.free) : ReadRoom fill c := by
  have hhi := (rlen_range c).2
  have ha := hs.sdsavail_eq
  have hl := hs.sdslen_eq
  have hblock := hs.block
  have hlen := hs.len
  have hfit := hs.fits
  have hsize : toSize c.rlen = c.rlen.toNat := toSize_of_range h0 (by omega)
  have hres : c.reserved fill = c.ioBuffer := by
    unfold TCPConnection.reserved sdsMakeRoomFor
    rw [if_pos (by omega)]
  constructor
  · rw [hres]; omega
  · rw [hres]; exact hs.len
  · rw [hres]; exact hs.free
  · rw [hres]; exact hblock
  · intro r hr0 hr
    rw [hres]
    exact (incrLen_isSome_iff hlen (by omega) (by omega) hblock hr0 (by omega)).2 (by omega)

/-- The sum of the length and the request does not wrap. -/
theorem newlen_eq {c : TCPConnection} (hs : SdsOK c.ioBuffer) (h0 : 0 ≤ c.rlen) :
    (sdsNewlen (sdslen c.ioBuffer) (toSize c.rlen) : ℤ) =
      if sdslen c.ioBuffer + c.rlen < sdsMaxPrealloc then 2 * (sdslen c.ioBuffer + c.rlen)
      else sdslen c.ioBuffer + c.rlen + sdsMaxPrealloc := by
  have hhi := (rlen_range c).2
  have hl := hs.sdslen_eq
  have hfit := hs.fits
  have hf := hs.free
  have hsize : toSize c.rlen = c.rlen.toNat := toSize_of_range h0 (by omega)
  have hp : sdsMaxPrealloc = 1024 * 1024 := rfl
  unfold sdsNewlen
  dsimp only
  split <;> split <;> omega

/-- A block that is allocated has room if `free` can count it, and `len` the string with the bytes. -/
theorem readRoom_grown_iff (fill : ℕ → UInt8) {c : TCPConnection} (hs : SdsOK c.ioBuffer) (h0 : 0 ≤ c.rlen)
    (hfull : c.ioBuffer.free < c.rlen) :
    ReadRoom fill c ↔ sdslen c.ioBuffer + c.rlen < sdsMaxPrealloc ∨
      c.rlen + sdsMaxPrealloc < 2 ^ 31 ∧ sdslen c.ioBuffer + c.rlen < 2 ^ 31 := by
  have hhi := (rlen_range c).2
  have hl := hs.sdslen_eq
  have hfit := hs.fits
  have hf := hs.free
  have hsize : toSize c.rlen = c.rlen.toNat := toSize_of_range h0 (by omega)
  have ha := hs.sdsavail_eq
  have hp : sdsMaxPrealloc = 1024 * 1024 := rfl
  have hh : sdshdrSize = 8 := rfl
  have hnew := newlen_eq hs h0
  obtain ⟨hbuf, hfree, hlen⟩ := makeRoom_grown fill (s := c.ioBuffer) (n := toSize c.rlen) (by omega)
  change (c.reserved fill).buf.length = _ at hbuf
  change (c.reserved fill).free = _ at hfree
  change (c.reserved fill).len = _ at hlen
  set m := sdsNewlen (sdslen c.ioBuffer) (toSize c.rlen)
  have hm : (c.rlen + sdslen c.ioBuffer ≤ m) ∧ m < 2 ^ 33 := by split at hnew <;> omega
  have hbuf' : (c.reserved fill).buf.length = m + 1 := by rw [hbuf]; omega
  have hlen0 : 0 ≤ (c.reserved fill).len := hlen.symm ▸ hs.len
  have hrange := toInt_range ((m : ℤ) - sdslen c.ioBuffer)
  rw [← hfree] at hrange
  constructor
  · intro h
    have hfree0 := h.free
    rw [hfree] at hfree0
    by_contra hno
    rw [if_neg (by omega)] at hnew
    by_cases hcount : c.rlen + sdsMaxPrealloc < 2 ^ 31
    · -- `len` would have to count more than an `int` can
      have hcounted := (incrLen_isSome_iff hlen0 (by omega) hrange.2 h.block h0 ?_).1 (h.incr c.rlen h0 le_rfl)
      · omega
      · rw [hfree, toInt_of_range (by omega) (by omega)]
        omega
    · -- or `free` would
      unfold toInt at hfree0
      dsimp only at hfree0
      split at hfree0 <;> omega
  · intro hgives
    have hfree' : (c.reserved fill).free = (m : ℤ) - sdslen c.ioBuffer := by
      refine hfree.trans (toInt_of_range ?_ ?_) <;> split at hnew <;> omega
    have hblock : ((c.reserved fill).buf.length : ℤ) =
        (c.reserved fill).len + (c.reserved fill).free + 1 := by
      rw [hbuf', hlen, hfree']
      push_cast
      omega
    refine ⟨by omega, hlen0, by omega, hblock, ?_⟩
    intro r hr0 hr
    exact (incrLen_isSome_iff hlen0 (by omega) hrange.2 hblock hr0 (by omega)).2 (by omega)

theorem readRoom_iff (fill : ℕ → UInt8) {c : TCPConnection} (hs : SdsOK c.ioBuffer) :
    ReadRoom fill c ↔ GivesRoom c := by
  rcases lt_or_ge c.rlen 0 with hneg | h0
  · have hno : ¬ GivesRoom c := fun h => absurd h.1 (by omega)
    exact iff_of_false (not_readRoom_of_neg fill hs hneg) hno
  · rcases le_or_gt c.rlen c.ioBuffer.free with hfits | hfull
    · exact iff_of_true (readRoom_of_avail fill hs h0 hfits) ⟨h0, .inl hfits⟩
    · rw [readRoom_grown_iff fill hs h0 hfull, GivesRoom]
      constructor
      · exact fun h => ⟨h0, .inr h⟩
      · rintro ⟨-, hroom | h⟩
        · omega
        · exact h

/-! ## Runs -/

theorem runCalls_sds (calls : List Call) :
    ∀ c : TCPConnection, SdsOK c.ioBuffer → SdsOK (runCalls c calls).ioBuffer := by
  induction calls with
  | nil => intro c h; exact h
  | cons k ks ih =>
    intro c h
    refine ih (k.run c) ?_
    cases k with
    | reset st n => exact h
    | expectNext st n => exact h
    | shrinkProcessed st n => exact range_keeps h (toInt_range _).1
    | addReply r => exact h

theorem step_sds {H : Handler σ} {s s' : Input σ} {e : ReadEnv} (h : SdsOK s.conn.ioBuffer) (hr : Roomy s.conn)
    (hst : s.step H e = some s') : SdsOK s'.conn.ioBuffer := by
  obtain ⟨c₁, hrecv, hcase⟩ := step_recv hst
  have hok : SdsOK c₁.ioBuffer := by
    rcases recv_cases e h hr with ⟨cause, hclose⟩ | ⟨buf, hopen, hbuf, -⟩
    · rw [hclose] at hrecv
      cases hrecv
    · rw [hopen] at hrecv
      cases hrecv
      exact hbuf
  rcases hcase with ⟨-, rfl⟩ | ⟨-, -, rfl⟩
  · exact hok
  · exact runCalls_sds _ c₁ hok

/-- **The room for a read.** In every state of a run of read events that all had room, with any
handler: for every expected size, the room that is reserved is enough for the read and the
header accounts for it exactly if the size is not negative as an `int`, and fits the `int`
fields, `free` with what `sdsMakeRoomFor` adds and `len` with the string, unless it is free already
or the string is short. -/
theorem read_room_iff (H : Handler σ) (sock : Socket) (now : ℕ) (ssl : Bool) (m : σ) {es : List ReadEnv}
    (hroomy : Along (Input.step H) (fun s _ => Roomy s.conn) (Input.init (TCPConnection.start sock now ssl) m)
      es) :
    Always (Input.step H)
      (fun s => ∀ (expected : ℕ) (fill : ℕ → UInt8), ReadRoom fill (s.conn.expecting expected) ↔
        GivesRoom (s.conn.expecting expected))
      (Input.init (TCPConnection.start sock now ssl) m) es := by
  have hall := always_along (I := fun s : Input σ => SdsOK s.conn.ioBuffer)
    (fun s e s' h hr hst => step_sds h hr hst) sdsempty_ok hroomy
  exact hall.mono fun s h expected fill => readRoom_iff fill (c := s.conn.expecting expected) h

/-- A handler of messages with a header of one byte and a body whose length the peer chose. -/
def bodyLen (n : ℕ) : Handler Unit := fun _ _ => ((), [.shrinkProcessed 1 n], WORKER_OK)

/-- A connection on which the header has been read. -/
def headerRead (n : ℕ) : Option (Input Unit) :=
  run (Input.step (bodyLen n)) (Input.init (TCPConnection.start ⟨0, .tcp, 7⟩ 0 false) ())
    [⟨fun _ => 0, .bytes 5 [], 1⟩]

theorem read_room_short :
    ∃ s, headerRead 100 = some s ∧ s.conn.bytesExpected = 100 ∧ ReadRoom (fun _ => 0) (s.conn.expecting 100) := by
  refine ⟨_, rfl, rfl, ?_⟩
  have hroomy : Along (Input.step (bodyLen 100)) (fun s _ => Roomy s.conn)
      (Input.init (TCPConnection.start ⟨0, .tcp, 7⟩ 0 false) ()) [⟨fun _ => 0, .bytes 5 [], 1⟩] := by decide
  exact ((read_room_iff (bodyLen 100) _ _ _ _ hroomy).last rfl 100 _).2 (by decide)

/-- A body length of `0xffffffff`: the block ends after a megabyte, and `read` is told that all of
the address space is there. -/
theorem huge_body_no_room :
    ∃ s, headerRead 0xffffffff = some s ∧ toSize s.conn.rlen = 2 ^ 64 - 1 ∧
      (s.conn.reserved fun _ => 0).buf.length = 2 ^ 20 ∧ ¬ ReadRoom (fun _ => 0) s.conn := by
  obtain ⟨s, hs⟩ : ∃ s, headerRead 0xffffffff = some s := ⟨_, rfl⟩
  have hsize : toSize s.conn.rlen = 2 ^ 64 - 1 := by cases hs; decide
  have hbuf : (s.conn.reserved fun _ => 0).buf.length = 2 ^ 20 := by
    cases hs
    exact (makeRoom_grown _ (by decide)).1.trans (by decide)
  refine ⟨s, hs, hsize, hbuf, fun h => ?_⟩
  have hread := h.read
  rw [hbuf, hsize] at hread
  omega

end Spigeon
