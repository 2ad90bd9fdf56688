import Spigeon.Lib.Crc
import Spigeon.Spec.Crc32c

/-!
# The checksum that the tables compute

The tables are shifted bytes (`table0_eq` to `table3_eq`), so each step of `extend` feeds its bytes to the
register (`Reads`), and each loop keeps what the register will be in the end.

* `extend_stream`: chunks of a stream at any addresses.
* `stored_crc_burst`: which damage the checksum always shows.
-/

namespace Spigeon.Crc32c

open Crc

/-! ### The tables -/

theorem table0_eq : table0 = (List.range 256).map fun i => shifts poly 8 (BitVec.ofNat 32 i) := by decide +kernel

theorem table1_eq : table1 = (List.range 256).map fun i => shifts poly 16 (BitVec.ofNat 32 i) := by decide +kernel

theorem table2_eq : table2 = (List.range 256).map fun i => shifts poly 24 (BitVec.ofNat 32 i) := by decide +kernel

theorem table3_eq : table3 = (List.range 256).map fun i => shifts poly 32 (BitVec.ofNat 32 i) := by decide +kernel

/-- A table of shifted bytes is never read outside. -/
theorem lookup_eq {table : List (BitVec 32)} {n : ℕ}
    (h : table = (List.range 256).map fun i => shifts poly n (BitVec.ofNat 32 i)) {c : BitVec 32}
    (hc : c >>> 8 = 0#32) :
    table[c.toNat]? = some (shifts poly n c) := by
  have hlt : c.toNat < 256 := by
    have hzero := congrArg BitVec.toNat hc
    rw [BitVec.toNat_ushiftRight, Nat.shiftRight_eq_div_pow, BitVec.toNat_zero] at hzero
    omega
  rw [h, List.getElem?_map, List.getElem?_range hlt, Option.map_some, BitVec.ofNat_toNat, BitVec.setWidth_eq]

/-! ### Bytes -/

theorem getLsbD_byte (c : BitVec 32) (i : ℕ) : (c &&& 0xff#32).getLsbD i = (decide (i < 8) && c.getLsbD i) := by
  have hmask : (0xff#32).getLsbD i = decide (i < 8) := by
    have hpow : (255 : ℕ) = 2 ^ 8 - 1 := rfl
    rw [BitVec.getLsbD_ofNat, hpow, Nat.testBit_two_pow_sub_one]
    by_cases hi : i < 8
    · simp [hi, show i < 32 by omega]
    · simp [hi]
  rw [BitVec.getLsbD_and, hmask, Bool.and_comm]

theorem byte_shiftRight (c : BitVec 32) : (c &&& 0xff#32) >>> 8 = 0#32 := by
  refine BitVec.eq_of_getLsbD_eq fun i _ => ?_
  rw [BitVec.getLsbD_ushiftRight, getLsbD_byte]
  simp

/-- A byte of the word falls out, and the others are moved. -/
theorem shifts_byte (n : ℕ) (c : BitVec 32) :
    shifts poly (n + 8) c = shifts poly (n + 8) (c &&& 0xff#32) ^^^ shifts poly n (c >>> 8) :=
  shifts_split poly n 8 (fun i hi => by rw [getLsbD_byte, decide_eq_true hi, Bool.true_and]) (byte_shiftRight c)

theorem bits_cons (b : UInt8) (data : List UInt8) : bits (b :: data) = bits [b] ++ bits data := by
  rw [bits, bits, bits, List.flatMap_cons, List.flatMap_singleton]

theorem bits_append (data data' : List UInt8) : bits (data ++ data') = bits data ++ bits data' :=
  List.flatMap_append

theorem length_bits (data : List UInt8) : (bits data).length = 8 * data.length := by
  induction data with
  | nil => rfl
  | cons b data ih =>
    rw [bits_cons, List.length_append, ih, List.length_cons]
    simp only [bits, List.flatMap_singleton, List.length_map, List.length_range]
    omega

theorem word_byte (b : UInt8) : word 32 (bits [b]) = b.toBitVec.setWidth 32 := by
  refine BitVec.eq_of_getLsbD_eq fun i hi => ?_
  rw [getLsbD_word, BitVec.getLsbD_setWidth, bits, List.flatMap_singleton, List.getD_eq_getElem?_getD]
  by_cases hbyte : i < 8
  · simp [hbyte]
  · rw [BitVec.getLsbD_of_ge _ _ (by omega)]
    simp [hbyte]

theorem word_leLoad32 (b₀ b₁ b₂ b₃ : UInt8) : word 32 (bits [b₀, b₁, b₂, b₃]) = leLoad32 b₀ b₁ b₂ b₃ := by
  have hwords : word 32 (bits [b₀, b₁, b₂, b₃]) =
      b₀.toBitVec.setWidth 32 ^^^ ((b₁.toBitVec.setWidth 32 ^^^
        ((b₂.toBitVec.setWidth 32 ^^^ (b₃.toBitVec.setWidth 32 <<< 8)) <<< 8)) <<< 8) := by
    rw [bits_cons, bits_cons b₁, bits_cons b₂, word_append, word_append, word_append]
    simp only [word_byte, length_bits, List.length_singleton]
  rw [hwords, leLoad32]
  refine BitVec.eq_of_getLsbD_eq fun i hi => ?_
  -- each bit comes from one byte
  have hbyte : ∀ (b : UInt8) j, 8 ≤ j → b.toBitVec.getLsbD j = false := fun b j hj => BitVec.getLsbD_of_ge _ _ hj
  simp only [BitVec.getLsbD_xor, BitVec.getLsbD_or, BitVec.getLsbD_shiftLeft, BitVec.getLsbD_setWidth]
  grind

/-! ### Steps -/

/-- The register when the rest of the string has been fed. -/
def Cursor.finish (s : Cursor) : BitVec 32 := feed poly s.l (bits s.rest)

/-- A step reads `n` bytes, in bounds, and keeps what the register will be in the end. -/
def Reads (n : ℕ) (body : Cursor → Option Cursor) : Prop :=
  ∀ s : Cursor, n ≤ s.rest.length → ∃ s', body s = some s' ∧ s'.rest = s.rest.drop n ∧ s'.finish = s.finish

theorem step1_eq (l : BitVec 32) (b : UInt8) (rest : List UInt8) :
    step1 ⟨l, b :: rest⟩ = some ⟨feed poly l (bits [b]), rest⟩ := by
  have hlow : ((l &&& 0xff#32) ^^^ b.toBitVec.setWidth 32) >>> 8 = 0#32 := by
    have hb : b.toBitVec.setWidth 32 >>> 8 = 0#32 := by
      refine BitVec.eq_of_getLsbD_eq fun i _ => ?_
      rw [BitVec.getLsbD_ushiftRight, BitVec.getLsbD_setWidth, BitVec.getLsbD_of_ge _ _ (by omega)]
      simp
    rw [BitVec.ushiftRight_xor_distrib, byte_shiftRight, hb, BitVec.xor_zero]
  have hfed : feed poly l (bits [b]) = shifts poly 8 (l ^^^ b.toBitVec.setWidth 32) := by
    rw [feed_eq_shifts poly l (by rw [length_bits, List.length_singleton]; decide), word_byte, length_bits]
    rfl
  have hsplit : shifts poly 8 (l ^^^ b.toBitVec.setWidth 32) =
      shifts poly 8 ((l &&& 0xff#32) ^^^ b.toBitVec.setWidth 32) ^^^ (l >>> 8) := by
    rw [shifts_xor, shifts_xor, shifts_byte 0 l]
    simp only [shifts_zero, Nat.zero_add]
    ac_rfl
  simp only [step1, lookup_eq table0_eq hlow, Option.bind_eq_bind, Option.bind_some]
  rw [hfed, hsplit]

theorem step4_eq (l : BitVec 32) (b₀ b₁ b₂ b₃ : UInt8) (rest : List UInt8) :
    step4 ⟨l, b₀ :: b₁ :: b₂ :: b₃ :: rest⟩ = some ⟨feed poly l (bits [b₀, b₁, b₂, b₃]), rest⟩ := by
  have hfed : feed poly l (bits [b₀, b₁, b₂, b₃]) = shifts poly 32 (l ^^^ leLoad32 b₀ b₁ b₂ b₃) := by
    rw [feed_eq_shifts poly l (by rw [length_bits]; simp), word_leLoad32, length_bits]
    rfl
  simp only [step4]
  rw [hfed]
  generalize l ^^^ leLoad32 b₀ b₁ b₂ b₃ = c
  have hlast : (c >>> 24) >>> 8 = 0#32 := by
    rw [← BitVec.shiftRight_add]
    exact BitVec.ushiftRight_eq_zero (by decide)
  have hsplit : shifts poly 32 c = shifts poly 32 (c &&& 0xff#32) ^^^ shifts poly 24 ((c >>> 8) &&& 0xff#32) ^^^
      shifts poly 16 ((c >>> 16) &&& 0xff#32) ^^^ shifts poly 8 (c >>> 24) := by
    rw [shifts_byte 24 c, shifts_byte 16 (c >>> 8), ← BitVec.shiftRight_add, shifts_byte 8 (c >>> 16),
      ← BitVec.shiftRight_add]
    ac_rfl
  rw [lookup_eq table3_eq (byte_shiftRight c), lookup_eq table2_eq (byte_shiftRight (c >>> 8)),
    lookup_eq table1_eq (byte_shiftRight (c >>> 16)), lookup_eq table0_eq hlast, hsplit]
  rfl

theorem Cursor.finish_of_eq {l : BitVec 32} {data rest : List UInt8} :
    (⟨feed poly l (bits data), rest⟩ : Cursor).finish = (⟨l, data ++ rest⟩ : Cursor).finish := by
  rw [finish, finish, bits_append, feed_append]

theorem reads_step1 : Reads 1 step1 := by
  rintro ⟨l, _ | ⟨b, rest⟩⟩ hlen
  · cases hlen
  · exact ⟨_, step1_eq l b rest, rfl, Cursor.finish_of_eq⟩

theorem reads_step4 : Reads 4 step4 := by
  rintro ⟨l, rest⟩ hlen
  match rest, hlen with
  | b₀ :: b₁ :: b₂ :: b₃ :: rest, _ => exact ⟨_, step4_eq l b₀ b₁ b₂ b₃ rest, rfl, Cursor.finish_of_eq⟩

theorem Reads.bind {m n : ℕ} {body body' : Cursor → Option Cursor} (h : Reads m body) (h' : Reads n body') :
    Reads (m + n) fun s => (body s).bind body' := by
  intro s hlen
  obtain ⟨s₁, hbody, hrest, hfinish⟩ := h s (by omega)
  obtain ⟨s₂, hbody', hrest', hfinish'⟩ := h' s₁ (by rw [hrest, List.length_drop]; omega)
  refine ⟨s₂, ?_, by rw [hrest', hrest, List.drop_drop], hfinish'.trans hfinish⟩
  dsimp only
  rw [hbody, Option.bind_some, hbody']

theorem reads_step16 : Reads 16 step16 :=
  reads_step4.bind (reads_step4.bind (reads_step4.bind reads_step4))

/-! ### Loops -/

theorem Reads.stepsWhile {n : ℕ} {body : Cursor → Option Cursor} (h : Reads n body) (hn : 0 < n) {fuel : ℕ}
    {s : Cursor} (hfuel : s.rest.length ≤ fuel) :
    ∃ s', Crc32c.stepsWhile n body fuel s = some s' ∧ s'.rest.length < n ∧ s'.rest.length ≤ s.rest.length ∧
      s'.finish = s.finish := by
  induction fuel generalizing s with
  | zero => exact ⟨s, if_neg (by omega), by omega, le_rfl, rfl⟩
  | succ fuel ih =>
    rw [Crc32c.stepsWhile]
    by_cases hleft : n ≤ s.rest.length
    · obtain ⟨s₁, hbody, hrest, hfinish⟩ := h s hleft
      have hlen : s₁.rest.length = s.rest.length - n := by rw [hrest, List.length_drop]
      obtain ⟨s', hloop, hend, hle, hfinish'⟩ := ih (s := s₁) (by omega)
      refine ⟨s', ?_, hend, by omega, hfinish'.trans hfinish⟩
      rw [if_pos hleft, hbody]
      exact hloop
    · exact ⟨s, if_neg hleft, by omega, le_rfl, rfl⟩

/-- The bytes up to an address in the string or at its end. -/
theorem stepsTo_eq {x p : ℕ} (l : BitVec 32) {data : List UInt8} (hx : p ≤ x) (hend : x ≤ p + data.length) :
    ∃ s, stepsTo x p l data = some s ∧ s.rest.length ≤ data.length ∧ s.finish = (⟨l, data⟩ : Cursor).finish := by
  induction data generalizing p l with
  | nil =>
    rw [List.length_nil] at hend
    exact ⟨⟨l, []⟩, if_pos (by omega), le_rfl, rfl⟩
  | cons b data ih =>
    rw [stepsTo]
    by_cases hpx : p = x
    · exact ⟨⟨l, b :: data⟩, if_pos hpx, le_rfl, rfl⟩
    · rw [List.length_cons] at hend
      obtain ⟨s, hloop, hle, hfinish⟩ := ih (feed poly l (bits [b])) (p := p + 1) (by omega) (by omega)
      refine ⟨s, ?_, hle.trans (Nat.le_succ _), hfinish.trans Cursor.finish_of_eq⟩
      rw [if_neg hpx, step1_eq]
      exact hloop

theorem le_alignUp {p : ℕ} (hp : p + 3 < 2 ^ 64) : p ≤ alignUp p := by
  rw [alignUp, Nat.mod_eq_of_lt hp, Nat.shiftLeft_eq, Nat.shiftRight_eq_div_pow]
  omega

theorem stepsAligned_eq {addr : ℕ} (haddr : addr + 3 < 2 ^ 64) (l : BitVec 32) (data : List UInt8) :
    ∃ s, stepsAligned addr l data = some s ∧ s.rest.length ≤ data.length ∧
      s.finish = (⟨l, data⟩ : Cursor).finish := by
  unfold stepsAligned
  split
  next hin => exact stepsTo_eq l (le_alignUp haddr) hin
  next => exact ⟨_, rfl, le_rfl, rfl⟩

/-- `extend` in one register, bit by bit. -/
theorem extend_eq {addr : ℕ} (haddr : addr + 3 < 2 ^ 64) (crc : BitVec 32) (data : List UInt8) :
    extend addr crc data = some (feed poly (crc ^^^ 0xffffffff#32) (bits data) ^^^ 0xffffffff#32) := by
  obtain ⟨s, hs, hlen, hfinish⟩ := stepsAligned_eq haddr (crc ^^^ 0xffffffff#32) data
  obtain ⟨s₁, h₁, -, hle₁, hfinish₁⟩ := reads_step16.stepsWhile (by decide) hlen
  obtain ⟨s₂, h₂, -, hle₂, hfinish₂⟩ := reads_step4.stepsWhile (by decide) (hle₁.trans hlen)
  obtain ⟨s₃, h₃, hend, -, hfinish₃⟩ := reads_step1.stepsWhile (by decide) (hle₂.trans (hle₁.trans hlen))
  -- nothing is left to feed
  have hdone : s₃.l = s₃.finish := by
    have hnil : s₃.rest = [] := List.length_eq_zero_iff.1 (by omega)
    rw [Cursor.finish, hnil]
    rfl
  unfold extend
  simp only [hs, h₁, h₂, h₃, Option.bind_eq_bind, Option.bind_some]
  rw [hdone, hfinish₃, hfinish₂, hfinish₁, hfinish]
  rfl

/-! ### What the checksum is good for -/

theorem unmask_mask (crc : BitVec 32) : unmask (mask crc) = crc := by
  unfold unmask mask
  dsimp only
  rw [BitVec.add_sub_cancel]
  refine BitVec.eq_of_getLsbD_eq fun i hi => ?_
  simp only [BitVec.getLsbD_or, BitVec.getLsbD_shiftLeft, BitVec.getLsbD_ushiftRight]
  grind

/-- **A stream that is extended chunk by chunk has the checksum of the whole**, whatever the addresses of the
chunks are: the polynomial is divided bit by bit, and no table and no chunk is read outside of its bounds. -/
theorem extend_stream {chunks : List (ℕ × List UInt8)} (haddr : ∀ c ∈ chunks, c.1 + 3 < 2 ^ 64)
    (crc : BitVec 32) :
    chunks.foldlM (fun crc c => extend c.1 crc c.2) crc =
      some (feed poly (crc ^^^ 0xffffffff#32) (bits (chunks.flatMap Prod.snd)) ^^^ 0xffffffff#32) := by
  have hback : ∀ x : BitVec 32, x ^^^ 0xffffffff#32 ^^^ 0xffffffff#32 = x := by
    intro x
    rw [BitVec.xor_assoc, BitVec.xor_self, BitVec.xor_zero]
  induction chunks generalizing crc with
  | nil => exact congrArg some (hback crc).symm
  | cons c chunks ih =>
    have hrest := ih fun c' hc' => haddr c' (List.mem_cons_of_mem _ hc')
    rw [List.foldlM_cons, extend_eq (haddr c List.mem_cons_self)]
    dsimp only [Option.bind_eq_bind, Option.bind_some]
    rw [hrest, hback, List.flatMap_cons, bits_append, feed_append]

/-- The checksum of nine digits, in two chunks at odd addresses. -/
theorem extend_stream_digits :
    [((5, [49, 50, 51, 52]) : ℕ × List UInt8), (2, [53, 54, 55, 56, 57])].foldlM
      (fun crc c => extend c.1 crc c.2) 0#32 =
      some 0xe3069283#32 := by
  rw [extend_stream (by decide)]
  decide +kernel

/-- **A stored checksum does not fit a string with a burst of at most 32 bits in it**, at any place and with any
masks. -/
theorem stored_crc_burst {addr addr' : ℕ} (haddr : addr + 3 < 2 ^ 64) (haddr' : addr' + 3 < 2 ^ 64)
    {data data' : List UInt8} {pre burst burst' post : List Bool} (hdata : bits data = pre ++ burst ++ post)
    (hdata' : bits data' = pre ++ burst' ++ post) (hlen : burst.length = burst'.length)
    (hshort : burst.length ≤ 32)
    (hne : burst ≠ burst') :
    ∃ crc crc', value addr data = some crc ∧ value addr' data' = some crc' ∧ unmask (mask crc) = crc ∧
      unmask (mask crc) ≠ crc' := by
  refine ⟨_, _, extend_eq haddr _ _, extend_eq haddr' _ _, unmask_mask _, ?_⟩
  rw [unmask_mask, hdata, hdata', ne_eq, BitVec.xor_left_inj]
  exact feed_burst rfl hlen hshort hne _ pre post

/-- Two bytes are exchanged. -/
theorem stored_crc_burst_swap : ∃ crc crc', value 1 [1, 2, 3, 4] = some crc ∧ value 6 [1, 3, 2, 4] = some crc' ∧
    unmask (mask crc) ≠ crc' := by
  have haddr : 1 + 3 < 2 ^ 64 := by decide
  have haddr' : 6 + 3 < 2 ^ 64 := by decide
  have hdata : bits [1, 2, 3, 4] = bits [1] ++ bits [2, 3] ++ bits [4] := by decide
  have hdata' : bits [1, 3, 2, 4] = bits [1] ++ bits [3, 2] ++ bits [4] := by decide
  obtain ⟨crc, crc', h, h', -, hne⟩ :=
    stored_crc_burst haddr haddr' hdata hdata' (by decide) (by decide) (by decide)
  exact ⟨crc, crc', h, h', hne⟩

end Spigeon.Crc32c
