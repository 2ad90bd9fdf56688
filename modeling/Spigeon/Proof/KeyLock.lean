import Mathlib.Data.Nat.Bitwise
import Spigeon.Lib.CStr
import Spigeon.Lib.Lts
import Spigeon.Spec.KeyLock

/-!
# What a key lock holder releases

A holder unlocks the bucket of what its variable refers to at the end. As long as that is the bucket
it has locked, each live holder owns the mutex of its bucket and no two of them share one
(`Owns`). What a constructor acquires and a destructor releases is said by the mutexes before
and behind it. `holder_releases_iff`: the condition on what the callers leave in the variables
is also necessary.
-/

namespace Spigeon

variable {θ : Type} (kl : KeyLock) (hash : List UInt8 → UInt64)

/-- The index of a bucket is inside of `_bucket_list`. -/
theorem KeyLock.bucket_lt (key : List UInt8) : kl.bucket hash key < kl.bucketNum := by
  unfold KeyLock.bucket KeyLock.bucketMask KeyLock.bucketNum
  rw [Nat.one_shiftLeft, Nat.and_two_pow_sub_one_eq_mod]
  exact Nat.mod_lt _ (Nat.two_pow_pos _)

/-- `try_lock` locks exactly where `lock` does not wait. -/
theorem KeyLock.tryLock_eq (key : List UInt8) (t : θ) (m : Mutexes θ) :
    kl.tryLock hash key t m = ((kl.lock hash key t m).getD m, (kl.lock hash key t m).isSome) := by
  unfold KeyLock.tryLock KeyLock.lock
  split <;> rfl

namespace KeyLockState

/-! ### What is asked of a run -/

/-- One mutex is freed, and every other one is left as it was. -/
def Frees (b : ℕ) (m m' : Mutexes θ) : Prop := m' b = none ∧ ∀ b', b' ≠ b → m' b' = m b'

/-- A constructor takes the free mutex of its bucket for its thread and leaves every other one as it was. The
holder records the variable, and the key in it. -/
def Acquires (s : KeyLockState θ) (e : KeyLockEvent θ) : Prop :=
  ∀ t h v s', e = .construct t h v → step kl hash s e = some s' →
    ∃ k, s'.holder h = some k ∧ k.thread = t ∧ k.var = v ∧ k.key = s.slice v ∧
      Frees k.bucket s'.mutexes s.mutexes ∧ s'.mutexes k.bucket = some t

/-- A destructor frees the mutex that its constructor locked, and no other one. -/
def ReleasesAcquired (s : KeyLockState θ) (e : KeyLockEvent θ) : Prop :=
  ∀ h k s', e = .destroy h → s.holder h = some k → step kl hash s e = some s' →
    Frees k.bucket s.mutexes s'.mutexes

/-- The mutex that a destructor frees was held by its thread. -/
def UnlocksOwn (s : KeyLockState θ) (e : KeyLockEvent θ) : Prop :=
  ∀ h k s', e = .destroy h → s.holder h = some k → step kl hash s e = some s' →
    ∃ b, s.mutexes b = some k.thread ∧ Frees b s.mutexes s'.mutexes

/-- At most one holder is alive for each key. -/
def OneHolderPerKey (s : KeyLockState θ) : Prop :=
  ∀ h h' k k', s.holder h = some k → s.holder h' = some k' → k.key = k'.key → h = h'

/-- What the callers have left in the variable of a holder, when it is destroyed, has the bucket of the bytes that
the variable held at construction. -/
def KeepsBucket (s : KeyLockState θ) (e : KeyLockEvent θ) : Prop :=
  ∀ h k, e = .destroy h → s.holder h = some k →
    kl.bucket hash (s.slice k.var) = kl.bucket hash k.key

/-! ### The invariant -/

/-- A holder remembers the bucket of its key, whatever happens to its variable. -/
def Recorded (s : KeyLockState θ) : Prop :=
  ∀ h k, s.holder h = some k → k.bucket = kl.bucket hash k.key

/-- Each live holder owns the mutex of its bucket and shares it with no other. -/
structure Owns (s : KeyLockState θ) : Prop where
  recorded : Recorded kl hash s
  owner : ∀ h k, s.holder h = some k → s.mutexes k.bucket = some k.thread
  inj : ∀ h h' k k', s.holder h = some k → s.holder h' = some k' → k.bucket = k'.bucket → h = h'

variable {kl hash} {s s' : KeyLockState θ} {e : KeyLockEvent θ}

theorem owns_init (slice : ℕ → List UInt8) : Owns kl hash (init slice : KeyLockState θ) :=
  ⟨by simp [Recorded, init], by simp [init], by simp [init]⟩

theorem Owns.oneHolderPerKey (hs : Owns kl hash s) : OneHolderPerKey s := by
  intro h h' k k' hk hk' hkey
  refine hs.inj h h' k k' hk hk' ?_
  rw [hs.recorded h k hk, hs.recorded h' k' hk', hkey]

section Update

variable {β : Type} {f : ℕ → Option β} {a a' : ℕ} {b c : β}

theorem update_some_eq_some (h : Function.update f a (some c) a' = some b) :
    (a' = a ∧ b = c) ∨ f a' = some b := by
  rw [Function.update_apply] at h
  split at h
  next ha => exact Or.inl ⟨ha, (Option.some.inj h).symm⟩
  next => exact Or.inr h

theorem update_none_eq_some (h : Function.update f a none a' = some b) : a' ≠ a ∧ f a' = some b := by
  rw [Function.update_apply] at h
  split at h
  next => cases h
  next ha => exact ⟨ha, h⟩

end Update

/-- **What an event can do.** -/
theorem step_cases (hst : step kl hash s e = some s') :
    (∃ t h v, e = .construct t h v ∧ s.holder h = none ∧
      s.mutexes (kl.bucket hash (s.slice v)) = none ∧
      s' = { s with
        mutexes := Function.update s.mutexes (kl.bucket hash (s.slice v)) (some t)
        holder := Function.update s.holder h (some ⟨t, v, s.slice v, kl.bucket hash (s.slice v)⟩) }) ∨
    (∃ h k, e = .destroy h ∧ s.holder h = some k ∧
      s' = { s with
        mutexes := Function.update s.mutexes (kl.bucket hash (s.slice k.var)) none
        holder := Function.update s.holder h none }) ∨
    (∃ v key, s' = s.setSlice v key ∧ (∀ h, e ≠ .destroy h) ∧ ∀ t h v, e ≠ .construct t h v) := by
  cases e with
  | construct t h v =>
    refine Or.inl ⟨t, h, v, rfl, ?_⟩
    simp only [step, KeyLock.lock] at hst
    split at hst
    next => cases hst
    next hh =>
      split at hst
      next => cases hst
      next hm =>
        exact ⟨Option.not_isSome_iff_eq_none.mp hh, Option.not_isSome_iff_eq_none.mp hm,
          (Option.some.inj hst).symm⟩
  | destroy h =>
    obtain ⟨k, hk, rfl⟩ := Option.map_eq_some_iff.mp hst
    exact Or.inr (Or.inl ⟨h, k, rfl, hk, rfl⟩)
  | assign v key => exact Or.inr (Or.inr ⟨v, key, (Option.some.inj hst).symm, by simp, by simp⟩)
  | clear v => exact Or.inr (Or.inr ⟨v, [], (Option.some.inj hst).symm, by simp, by simp⟩)
  | removePrefix v n =>
    simp only [step] at hst
    split at hst
    next => exact Or.inr (Or.inr ⟨v, _, (Option.some.inj hst).symm, by simp, by simp⟩)
    next => cases hst

/-- A destructor frees the mutex of the bytes that it finds. -/
theorem step_destroy {h : ℕ} {k : KeyLockHolder θ} (hk : s.holder h = some k)
    (hst : step kl hash s (.destroy h) = some s') :
    Frees (kl.bucket hash (s.slice k.var)) s.mutexes s'.mutexes := by
  obtain ⟨t, h', v, ⟨⟩, -⟩ | ⟨h', k', ⟨⟩, hk', rfl⟩ | ⟨v, key, -, hne, -⟩ := step_cases hst
  · cases hk.symm.trans hk'
    exact ⟨Function.update_self .., fun b' hb' => Function.update_of_ne hb' ..⟩
  · exact absurd rfl (hne h)

/-- A destructor can free one mutex only. -/
theorem Frees.eq_of_held {b c : ℕ} {m m' : Mutexes θ} {t : θ} (hb : Frees b m m') (hc : Frees c m m')
    (ht : m c = some t) : c = b := by
  by_contra hne
  have hkept := hb.2 c hne
  rw [hc.1, ht] at hkept
  cases hkept

theorem acquires (s : KeyLockState θ) (e : KeyLockEvent θ) : Acquires kl hash s e := by
  rintro t h v s' rfl hst
  obtain ⟨t', h', v', ⟨⟩, -, hm, rfl⟩ | ⟨h', k', ⟨⟩, -⟩ | ⟨v', key, -, -, hne⟩ := step_cases hst
  · refine ⟨_, Function.update_self .., rfl, rfl, rfl, ⟨hm, fun b' hb' => ?_⟩, Function.update_self ..⟩
    exact (Function.update_of_ne hb' ..).symm
  · exact absurd rfl (hne t h v)

theorem Recorded.step (hs : Recorded kl hash s) (hst : step kl hash s e = some s') :
    Recorded kl hash s' := by
  intro h' k' hk'
  obtain ⟨t, h, v, rfl, -, -, rfl⟩ | ⟨h, k, rfl, -, rfl⟩ | ⟨v, key, rfl, -⟩ := step_cases hst
  · obtain ⟨-, rfl⟩ | hk' := update_some_eq_some hk'
    · rfl
    · exact hs h' k' hk'
  · exact hs h' k' (update_none_eq_some hk').2
  · exact hs h' k' hk'

theorem Owns.step (hs : Owns kl hash s) (he : KeepsBucket kl hash s e)
    (hst : step kl hash s e = some s') : Owns kl hash s' := by
  have hrec := hs.recorded.step hst
  obtain ⟨t, h, v, rfl, hh, hm, rfl⟩ | ⟨h, k, rfl, hk, rfl⟩ | ⟨v, key, rfl, -⟩ := step_cases hst
  · -- the mutex was free, so no live holder has its bucket
    have hfree : ∀ h' k', s.holder h' = some k' → k'.bucket ≠ kl.bucket hash (s.slice v) := by
      intro h' k' hk' heq
      have howner := hs.owner h' k' hk'
      rw [heq, hm] at howner
      cases howner
    refine ⟨hrec, ?_, ?_⟩
    · intro h' k' hk'
      obtain ⟨-, rfl⟩ | hk' := update_some_eq_some hk'
      · exact Function.update_self ..
      · exact (Function.update_of_ne (hfree h' k' hk') ..).trans (hs.owner h' k' hk')
    · intro h1 h2 k1 k2 hk1 hk2 heq
      obtain ⟨rfl, rfl⟩ | hold1 := update_some_eq_some hk1
      · obtain ⟨rfl, -⟩ | hold2 := update_some_eq_some hk2
        · rfl
        · exact absurd heq.symm (hfree h2 k2 hold2)
      · obtain ⟨rfl, rfl⟩ | hold2 := update_some_eq_some hk2
        · exact absurd heq (hfree h1 k1 hold1)
        · exact hs.inj h1 h2 k1 k2 hold1 hold2 heq
  · -- the mutex that is unlocked is that of the holder, and no other one has it
    have hrel : kl.bucket hash (s.slice k.var) = k.bucket :=
      (he h k rfl hk).trans (hs.recorded h k hk).symm
    refine ⟨hrec, ?_, ?_⟩
    · intro h' k' hk'
      obtain ⟨hne, hk'⟩ := update_none_eq_some hk'
      have hother : k'.bucket ≠ kl.bucket hash (s.slice k.var) := by
        rw [hrel]
        intro heq
        exact hne (hs.inj h' h k' k hk' hk heq)
      exact (Function.update_of_ne hother ..).trans (hs.owner h' k' hk')
    · intro h1 h2 k1 k2 hk1 hk2
      exact hs.inj h1 h2 k1 k2 (update_none_eq_some hk1).2 (update_none_eq_some hk2).2
  · exact ⟨hrec, hs.owner, hs.inj⟩

/-- Along a run each constructor acquires its mutex, each destructor frees what its constructor locked and its
thread holds, and at each point there is one holder for each key. -/
def Releases (kl : KeyLock) (hash : List UInt8 → UInt64) (s : KeyLockState θ)
    (es : List (KeyLockEvent θ)) : Prop :=
  Lts.Along (step kl hash) (fun s e => Acquires kl hash s e ∧ ReleasesAcquired kl hash s e ∧
    UnlocksOwn kl hash s e) s es ∧ Lts.Always (step kl hash) OneHolderPerKey s es

/-- The mutex that is freed can only be the one of the bytes that the destructor finds. -/
theorem keepsBucket_of_releases (hs : Recorded kl hash s) (hrel : ReleasesAcquired kl hash s e)
    (hown : UnlocksOwn kl hash s e) : KeepsBucket kl hash s e := by
  rintro h k rfl hk
  obtain ⟨s', hst⟩ : ∃ s', step kl hash s (.destroy h) = some s' := by
    simp only [step, hk, Option.map_some]
    exact ⟨_, rfl⟩
  obtain ⟨b, hheld, hfree⟩ := hown h k s' rfl hk hst
  calc kl.bucket hash (s.slice k.var) = b := ((step_destroy hk hst).eq_of_held hfree hheld).symm
    _ = k.bucket := (hrel h k s' rfl hk hst).eq_of_held hfree hheld
    _ = kl.bucket hash k.key := hs h k hk

theorem Owns.releases (hs : Owns kl hash s) (he : KeepsBucket kl hash s e) :
    ReleasesAcquired kl hash s e ∧ UnlocksOwn kl hash s e := by
  have hrel : ReleasesAcquired kl hash s e := by
    rintro h k s' rfl hk hst
    have hfree := step_destroy hk hst
    rwa [he h k rfl hk, ← hs.recorded h k hk] at hfree
  exact ⟨hrel, fun h k s' heq hk hst => ⟨k.bucket, hs.owner h k hk, hrel h k s' heq hk hst⟩⟩

/-- **When holders release what they acquired.** Exactly if at each destruction the bytes in the variable have the
bucket of those that were there at construction. -/
theorem holder_releases_iff (kl : KeyLock) (hash : List UInt8 → UInt64) (slice : ℕ → List UInt8)
    (es : List (KeyLockEvent θ)) :
    Releases kl hash (init slice) es ↔ Lts.Along (step kl hash) (KeepsBucket kl hash) (init slice) es := by
  constructor
  · rintro ⟨hrel, -⟩
    have hrec : Recorded kl hash (init slice : KeyLockState θ) := (owns_init slice).recorded
    exact Lts.Along.mono_inv (fun s e s' hs _ hst => Recorded.step hs hst)
      (fun s e hs he => keepsBucket_of_releases hs he.2.1 he.2.2) hrec hrel
  · intro hkeep
    have hstep : ∀ s e s', Owns kl hash s → KeepsBucket kl hash s e → step kl hash s e = some s' →
        Owns kl hash (s' : KeyLockState θ) := fun s e s' hs he hst => hs.step he hst
    refine ⟨Lts.Along.mono_inv hstep ?_ (owns_init slice) hkeep,
      (Lts.always_along hstep (owns_init slice) hkeep).mono fun s hs => hs.oneHolderPerKey⟩
    exact fun s e hs he => ⟨acquires s e, hs.releases he⟩

/-- The default of `bucket_power`. -/
def defaultLock : KeyLock := ⟨16, by decide⟩

/-- The variables of the threads: `a` of the first, `b` of the others. -/
def keysAB (v : ℕ) : List UInt8 := CStr.bytes (if v = 0 then "a" else "b")

/-- Thread 0 locks `a` and then writes `b` to its variable. Thread 1 locks `b`. -/
def reassigned : List (KeyLockEvent ℕ) :=
  [.construct 0 0 0, .assign 0 (CStr.bytes "b"), .construct 1 1 1]

/-- The destructor of thread 0 leaves the bucket of its key locked and frees another one, which thread 1
holds. Then thread 2 locks `b` too. -/
theorem not_releases_reassigned :
    ∃ s s₁ s', Lts.run (step defaultLock Spigeon.hash) (init keysAB) reassigned = some s ∧
      step defaultLock Spigeon.hash s (.destroy 0) = some s₁ ∧
      step defaultLock Spigeon.hash s₁ (.construct 2 2 1) = some s' ∧
      (s.mutexes 2220 = some 0 ∧ s₁.mutexes 2220 = some 0) ∧
        (s.mutexes 13717 = some 1 ∧ s₁.mutexes 13717 = none) ∧
      ¬ ReleasesAcquired defaultLock Spigeon.hash s (.destroy 0) ∧
      ¬ UnlocksOwn defaultLock Spigeon.hash s (.destroy 0) ∧ ¬ OneHolderPerKey s' ∧
      ¬ Releases defaultLock Spigeon.hash (init keysAB) (reassigned ++ [.destroy 0, .construct 2 2 1]) := by
  obtain ⟨s, hs⟩ : ∃ s, Lts.run (step defaultLock Spigeon.hash) (init keysAB) reassigned = some s :=
    Option.isSome_iff_exists.mp (by decide +kernel)
  obtain ⟨s₁, hs₁⟩ : ∃ s₁, step defaultLock Spigeon.hash s (.destroy 0) = some s₁ := by
    have hrun : ((Lts.run (step defaultLock Spigeon.hash) (init keysAB) reassigned).bind fun s =>
        step defaultLock Spigeon.hash s (.destroy 0)).isSome = true := by decide +kernel
    rw [hs, Option.bind_some] at hrun
    exact Option.isSome_iff_exists.mp hrun
  have hview : (s.holder 0 = some ⟨0, 0, CStr.bytes "a", 2220⟩ ∧ s.mutexes 2220 = some 0 ∧
      s.mutexes 13717 = some 1) ∧ defaultLock.bucket Spigeon.hash (s.slice 0) = 13717 := by
    have hrun : (Lts.run (step defaultLock Spigeon.hash) (init keysAB) reassigned).map (fun s =>
        ((s.holder 0, s.mutexes 2220, s.mutexes 13717), defaultLock.bucket Spigeon.hash (s.slice 0))) =
          some ((some ⟨0, 0, CStr.bytes "a", 2220⟩, some 0, some 1), 13717) := by decide +kernel
    rw [hs] at hrun
    simpa using hrun
  obtain ⟨⟨hk, hlocked, hother⟩, hbucket⟩ := hview
  -- thread 0 finds `b` in its variable and frees its mutex
  have hfree := step_destroy hk hs₁
  rw [hbucket] at hfree
  have hkept : s₁.mutexes 2220 = some 0 := (hfree.2 2220 (by decide)).trans hlocked
  have hrel : ¬ ReleasesAcquired defaultLock Spigeon.hash s (.destroy 0) := by
    intro hrel
    have hfreed := (hrel 0 _ s₁ rfl hk hs₁).1
    rw [hkept] at hfreed
    cases hfreed
  have hown : ¬ UnlocksOwn defaultLock Spigeon.hash s (.destroy 0) := by
    intro hown
    obtain ⟨b, hheld, hfreed⟩ := hown 0 _ s₁ rfl hk hs₁
    rw [hfree.eq_of_held hfreed hheld, hother] at hheld
    cases hheld
  -- with the mutex of `b` free, thread 2 comes in beside thread 1
  obtain ⟨s', hs', hone, htwo⟩ : ∃ s', step defaultLock Spigeon.hash s₁ (.construct 2 2 1) = some s' ∧
      s'.holder 1 = some ⟨1, 1, CStr.bytes "b", 13717⟩ ∧ s'.holder 2 = some ⟨2, 1, CStr.bytes "b", 13717⟩ := by
    have hrun : (((Lts.run (step defaultLock Spigeon.hash) (init keysAB) reassigned).bind fun s =>
        step defaultLock Spigeon.hash s (.destroy 0)).bind fun s =>
          step defaultLock Spigeon.hash s (.construct 2 2 1)).map (fun s' => (s'.holder 1, s'.holder 2)) =
        some (some ⟨1, 1, CStr.bytes "b", 13717⟩, some ⟨2, 1, CStr.bytes "b", 13717⟩) := by decide +kernel
    rw [hs, Option.bind_some, hs₁, Option.bind_some] at hrun
    obtain ⟨s', hs', heq⟩ := Option.map_eq_some_iff.mp hrun
    exact ⟨s', hs', (Prod.mk.inj heq).1, (Prod.mk.inj heq).2⟩
  refine ⟨s, s₁, s', hs, hs₁, hs', ⟨hlocked, hkept⟩, ⟨hother, hfree.1⟩, hrel, hown, ?_, ?_⟩
  · intro hkeys
    exact absurd (hkeys 1 2 _ _ hone htwo rfl) (by decide)
  · rintro ⟨halong, -⟩
    exact hrel (halong.suffix hs).1.2.1

end KeyLockState

end Spigeon
