import Mathlib.Data.Nat.Notation
import Mathlib.Logic.Function.Basic

/-!
# Key locks

`KeyLock` and `KeyLockHolder` of `util/key_lock.h`, and the hash of `util/hash.cpp`. A key is locked by
locking the mutex of its bucket. A holder locks in its constructor and unlocks in its destructor, and
in between it keeps a reference to the variable that it was given.

A `Slice` is kept as the bytes that it refers to. The fields `key` and `bucket` of a holder only
serve the statements.
-/

namespace Spigeon

/-! ### The hash -/

/-- A word of a key: the lowest byte is the first. -/
def loadWord (bs : List UInt8) : UInt64 :=
  bs.foldr (fun b k => (k <<< 8) ||| b.toUInt64) 0

/-- `m` of `MurmurHash64A`. -/
def murmurM : UInt64 := 0xc6a4a7935bd1e995

/-- `while (data != end)`, with `n` words before `end`. -/
def murmurWords : ℕ → List UInt8 → UInt64 → UInt64 × List UInt8
  | 0, data, h => (h, data)
  | n + 1, data, h =>
    let k := loadWord (data.take 8) * murmurM
    let k := (k ^^^ (k >>> 47)) * murmurM
    murmurWords n (data.drop 8) ((h ^^^ k) * murmurM)

/-- `switch (len & 7)`, which falls through from the last byte to the first. -/
def murmurTail (data : List UInt8) (h : UInt64) : UInt64 :=
  if data.isEmpty then h
  else (data.zipIdx.foldr (fun b h => h ^^^ (b.1.toUInt64 <<< (8 * UInt64.ofNat b.2))) h) * murmurM

/-- `MurmurHash64A`. -/
def murmurHash64A (key : List UInt8) (seed : UInt32) : UInt64 :=
  let len := key.length
  let (h, data2) := murmurWords (len / 8) key (seed.toUInt64 ^^^ (UInt64.ofNat len * murmurM))
  let h := murmurTail data2 h
  let h := (h ^^^ (h >>> 47)) * murmurM
  h ^^^ (h >>> 47)

/-- `hash`, of a key whose size is an `int`. -/
def hash (src : List UInt8) : UInt64 := murmurHash64A src 0xba1dba1d

/-! ### Locks -/

/-- `KeyLock` without its mutexes. `1 << bucket_power` is an `int`. -/
structure KeyLock where
  bucketPower : ℕ
  power_le : bucketPower ≤ 30

/-- `_bucket_num`. -/
def KeyLock.bucketNum (kl : KeyLock) : ℕ := 1 <<< kl.bucketPower

/-- `_bucket_mask`. -/
def KeyLock.bucketMask (kl : KeyLock) : ℕ := kl.bucketNum - 1

/-- The mutexes of the buckets, each with the thread that has locked it. -/
abbrev Mutexes (θ : Type) := ℕ → Option θ

section

variable {θ : Type} (kl : KeyLock) (hash : List UInt8 → UInt64)

/-- `hash(key.data(), key.size()) & _bucket_mask`. -/
def KeyLock.bucket (key : List UInt8) : ℕ := (hash key).toNat &&& kl.bucketMask

/-- `lock`: none while the mutex is locked. -/
def KeyLock.lock (key : List UInt8) (t : θ) (m : Mutexes θ) : Option (Mutexes θ) :=
  if (m (kl.bucket hash key)).isSome then none
  else some (Function.update m (kl.bucket hash key) (some t))

/-- `unlock`, by whatever thread. -/
def KeyLock.unlock (key : List UInt8) (m : Mutexes θ) : Mutexes θ :=
  Function.update m (kl.bucket hash key) none

/-- `try_lock`. -/
def KeyLock.tryLock (key : List UInt8) (t : θ) (m : Mutexes θ) : Mutexes θ × Bool :=
  if (m (kl.bucket hash key)).isSome then (m, false)
  else (Function.update m (kl.bucket hash key) (some t), true)

end

/-! ### Holders -/

/-- `KeyLockHolder`: the thread that it is an object of, and the variable that `_key` refers to; the key
in that variable at construction, and the bucket that was locked. -/
structure KeyLockHolder (θ : Type) where
  thread : θ
  var : ℕ
  key : List UInt8
  bucket : ℕ
deriving DecidableEq

structure KeyLockState (θ : Type) where
  mutexes : Mutexes θ
  slice : ℕ → List UInt8
  holder : ℕ → Option (KeyLockHolder θ)

/-- What threads do with the holders of one `KeyLock`, and with the variables of the keys. -/
inductive KeyLockEvent (θ : Type) where
  | construct (t : θ) (h v : ℕ)
  | destroy (h : ℕ)
  | assign (v : ℕ) (s : List UInt8)
  | clear (v : ℕ)
  | removePrefix (v n : ℕ)

namespace KeyLockState

variable {θ : Type} (kl : KeyLock) (hash : List UInt8 → UInt64)

/-- Nothing is locked. -/
def init (slice : ℕ → List UInt8) : KeyLockState θ := ⟨fun _ => none, slice, fun _ => none⟩

def setSlice (s : KeyLockState θ) (v : ℕ) (key : List UInt8) : KeyLockState θ :=
  { s with slice := Function.update s.slice v key }

/-- One event. A constructor waits for its mutex, and a prefix is no longer than the slice. -/
def step (s : KeyLockState θ) : KeyLockEvent θ → Option (KeyLockState θ)
  | .construct t h v =>
    if (s.holder h).isSome then none
    else
      (kl.lock hash (s.slice v) t s.mutexes).map fun m =>
        { s with
          mutexes := m
          holder := Function.update s.holder h
            (some ⟨t, v, s.slice v, kl.bucket hash (s.slice v)⟩) }
  | .destroy h =>
    (s.holder h).map fun k =>
      -- the bucket is that of the slice as it is now
      { s with
        mutexes := kl.unlock hash (s.slice k.var) s.mutexes
        holder := Function.update s.holder h none }
  | .assign v key => some (s.setSlice v key)
  | .clear v => some (s.setSlice v [])
  | .removePrefix v n =>
    if n ≤ (s.slice v).length then some (s.setSlice v ((s.slice v).drop n)) else none

end KeyLockState

end Spigeon
