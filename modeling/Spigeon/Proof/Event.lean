import Spigeon.Lib.Lts
import Spigeon.Spec.Event

/-!
# The mask of a watcher against a set of events

`start_io_event` is to add events to a set and `stop_io_event` to remove them. The set is not
stored anywhere: both functions read it off the `events` field of libev, which a watcher
that was stopped altogether keeps.

* `Interest`: the set, and the last value it had when it was not empty.
* `WatchFollows`: the field holds that last value, and the watcher is active while the set is
  not empty.
* `run_follows`, `allows_of_agrees`: one call keeps this exactly if it does not take a part of
  what a stopped watcher has kept.
* `watcher_follows_iff`: the same for any sequence of calls.
-/

namespace Spigeon

open Lts

/-- What the calls are meant to keep. -/
structure Interest where
  wanted : Mask
  /-- the last set that was not empty -/
  last : Mask
deriving DecidableEq, Repr

namespace Interest

/-- The set after a call. -/
def after (i : Interest) : IoCall → Mask
  | .start mask => i.wanted.union mask
  | .stop mask => i.wanted.diff mask

def next (i : Interest) (k : IoCall) : Interest :=
  ⟨i.after k, if i.after k = Mask.none then i.last else i.after k⟩

/-- A stop that comes when nothing is wanted takes all or nothing of the last set. -/
def Allows (i : Interest) : IoCall → Prop
  | .start _ => True
  | .stop mask => i.wanted = Mask.none → i.last.diff mask = i.last ∨ i.last.diff mask = Mask.none

instance (i : Interest) : ∀ k, Decidable (i.Allows k)
  | .start _ => isTrue trivial
  | .stop _ => inferInstanceAs (Decidable (_ → _ ∨ _))

end Interest

/-- A watcher beside the set it is for. -/
structure Watch where
  watcher : IOWatcher
  interest : Interest
deriving DecidableEq, Repr

namespace Watch

def next (fd : ℕ) (s : Watch) (k : IoCall) : Watch := ⟨k.run fd s.watcher, s.interest.next k⟩

/-- The watcher is active exactly if the set is not empty, and then it is the mask. -/
def Agrees (fd : ℕ) (s : Watch) : Prop :=
  (s.watcher.active = true ↔ s.interest.wanted ≠ Mask.none) ∧
    (s.watcher.active = true → s.watcher.fd = fd ∧ s.watcher.events = s.interest.wanted)

instance (fd : ℕ) (s : Watch) : Decidable (s.Agrees fd) := inferInstanceAs (Decidable (_ ∧ _))

end Watch

/-- The field holds the last set that was not empty. -/
structure WatchFollows (fd : ℕ) (w : IOWatcher) (i : Interest) : Prop where
  active : w.active = true ↔ i.wanted ≠ Mask.none
  descr : w.active = true → w.fd = fd
  events : w.events = i.last
  last : i.wanted ≠ Mask.none → i.last = i.wanted

variable {fd : ℕ} {w : IOWatcher} {i : Interest} {m : Mask}

theorem WatchFollows.agrees (h : WatchFollows fd w i) : Watch.Agrees fd ⟨w, i⟩ := by
  refine ⟨h.active, ?_⟩
  intro hactive
  have hlast : i.last = i.wanted := h.last (h.active.mp hactive)
  exact ⟨h.descr hactive, h.events.trans hlast⟩

/-- After a call that leaves the watcher active. -/
theorem follows_of_active {mask : Mask} {k : IoCall} (hmask : mask ≠ Mask.none) (hafter : i.after k = mask) :
    WatchFollows fd ⟨true, fd, mask⟩ (i.next k) := by
  have hnext : i.next k = ⟨mask, mask⟩ := by
    unfold Interest.next
    rw [hafter, if_neg hmask]
  rw [hnext]
  exact ⟨iff_of_true rfl hmask, fun _ => rfl, rfl, fun _ => rfl⟩

/-- After a call that leaves it stopped. -/
theorem follows_of_stopped {k : IoCall} (hw : w.active = false) (hevents : w.events = i.last)
    (hafter : i.after k = Mask.none) : WatchFollows fd w (i.next k) := by
  have hnext : i.next k = ⟨Mask.none, i.last⟩ := by
    unfold Interest.next
    rw [hafter, if_pos rfl]
  rw [hnext]
  have hactive : ¬ w.active = true := by rw [hw]; exact Bool.false_ne_true
  exact ⟨iff_of_false hactive fun h => h rfl, fun h => absurd h hactive, hevents, fun h => absurd rfl h⟩

theorem Mask.union_ne_none (a : Mask) (hm : m ≠ Mask.none) : a.union m ≠ Mask.none := by
  obtain ⟨r, w⟩ := m
  intro h
  simp only [Mask.union, Mask.none, Mask.mk.injEq, Bool.or_eq_false_iff] at h
  apply hm
  rw [h.1.2, h.2.2]
  rfl

theorem Mask.none_union (m : Mask) : Mask.none.union m = m := rfl

theorem Mask.none_diff (m : Mask) : Mask.none.diff m = Mask.none := rfl

theorem start_follows (h : WatchFollows fd w i) (hm : m ≠ Mask.none) :
    WatchFollows fd (startIoEvent w fd m) (i.next (.start m)) := by
  by_cases hactive : w.active = true
  · -- a running watcher gets the events on top of its own, and is left alone if it has them
    have hevents : w.events = i.wanted := h.events.trans (h.last (h.active.mp hactive))
    have hstart : startIoEvent w fd m = ⟨true, fd, i.wanted.union m⟩ := by
      obtain ⟨active, fd', events⟩ := w
      have hfd : fd' = fd := h.descr hactive
      subst hfd hactive hevents
      unfold startIoEvent
      rw [if_pos rfl]
      dsimp only
      split_ifs with hsame
      · rw [← hsame]
      · rfl
    rw [hstart]
    exact follows_of_active (Mask.union_ne_none i.wanted hm) rfl
  · have hwanted : i.wanted = Mask.none := not_not.mp fun hne => hactive (h.active.mpr hne)
    have hstart : startIoEvent w fd m = ⟨true, fd, m⟩ := by
      unfold startIoEvent
      rw [if_neg hactive]
    have hafter : i.after (.start m) = m := by
      change i.wanted.union m = m
      rw [hwanted, Mask.none_union]
    rw [hstart]
    exact follows_of_active hm hafter

/-- A stop of an active watcher. -/
theorem stop_active_follows (h : WatchFollows fd w i) (hactive : w.active = true) (m : Mask) :
    WatchFollows fd (stopIoEvent w fd m) (i.next (.stop m)) := by
  have hwanted : i.wanted ≠ Mask.none := h.active.mp hactive
  have hevents : w.events = i.wanted := h.events.trans (h.last hwanted)
  obtain ⟨active, fd', events⟩ := w
  have hfd : fd' = fd := h.descr hactive
  subst hfd hactive hevents
  unfold stopIoEvent
  dsimp only
  split_ifs with hsame hnone
  · -- nothing of the mask was wanted
    exact follows_of_active hwanted hsame.symm
  · exact follows_of_active hnone rfl
  · -- the last wanted set stays in the field
    exact follows_of_stopped rfl h.events (not_not.mp hnone)

/-- A stop of a watcher that is stopped already, with all or nothing of the last set in the mask. -/
theorem stop_stopped_follows (h : WatchFollows fd w i) (hwanted : i.wanted = Mask.none)
    (hallow : i.Allows (.stop m)) :
    WatchFollows fd (stopIoEvent w fd m) (i.next (.stop m)) := by
  have hactive : w.active = false := Bool.eq_false_iff.mpr fun hact => h.active.mp hact hwanted
  have hafter : i.after (.stop m) = Mask.none := by
    change i.wanted.diff m = Mask.none
    rw [hwanted, Mask.none_diff]
  have hsplit := hallow hwanted
  rw [← h.events] at hsplit
  unfold stopIoEvent
  dsimp only
  split_ifs with hsame hnone
  · exact follows_of_stopped hactive h.events hafter
  · -- neither all nor nothing
    rcases hsplit with hall | hnothing
    · exact absurd hall.symm hsame
    · exact absurd hnothing hnone
  · exact follows_of_stopped rfl h.events hafter

/-- What is left of the last set would make the watcher active again. -/
theorem allows_of_agrees (h : WatchFollows fd w i)
    (hagree : Watch.Agrees fd ⟨stopIoEvent w fd m, i.next (.stop m)⟩) :
    i.Allows (.stop m) := by
  intro hwanted
  have hafter : i.wanted.diff m = Mask.none := by rw [hwanted, Mask.none_diff]
  by_contra hpart
  obtain ⟨hsome, hleft⟩ := not_or.mp hpart
  rw [← h.events] at hsome hleft
  have hactive : (stopIoEvent w fd m).active = true := by
    unfold stopIoEvent
    dsimp only
    rw [if_neg (Ne.symm hsome), if_pos hleft]
  exact hagree.1.mp hactive hafter

/-- **One call keeps the watcher in step.** -/
theorem run_follows (h : WatchFollows fd w i) {k : IoCall} (hk : k.mask ≠ Mask.none) (hallow : i.Allows k) :
    WatchFollows fd (k.run fd w) (i.next k) := by
  cases k with
  | start m => exact start_follows h hk
  | stop m =>
    by_cases hwanted : i.wanted = Mask.none
    · exact stop_stopped_follows h hwanted hallow
    · exact stop_active_follows h (h.active.mpr hwanted) m

/-- From a watcher in step with its set, the calls keep it so exactly if each of them is allowed. -/
theorem follows_always_iff (h : WatchFollows fd w i) {calls : List IoCall}
    (hcalls : ∀ k ∈ calls, k.mask ≠ Mask.none) :
    Always (fun s k => some (s.next fd k)) (Watch.Agrees fd) ⟨w, i⟩ calls ↔
      Along (fun i k => some (i.next k)) Interest.Allows i calls := by
  induction calls generalizing w i with
  | nil => exact iff_of_true h.agrees trivial
  | cons k calls ih =>
    have hk : k.mask ≠ Mask.none := hcalls k List.mem_cons_self
    have hrest : ∀ k' ∈ calls, k'.mask ≠ Mask.none := fun k' hk' => hcalls k' (List.mem_cons_of_mem k hk')
    constructor
    · intro hall
      have hnext := hall.2 _ rfl
      have hallow : i.Allows k := by
        cases k with
        | start m => trivial
        | stop m => exact allows_of_agrees h hnext.head
      refine ⟨hallow, ?_⟩
      rintro i' ⟨⟩
      exact (ih (run_follows h hk hallow) hrest).mp hnext
    · intro hall
      refine ⟨h.agrees, ?_⟩
      rintro s ⟨⟩
      exact (ih (run_follows h hk hall.1) hrest).mpr (hall.2 _ rfl)

/-- **Starting and stopping are union and difference unless a stop splits what a stopped watcher
has kept.** The watcher is a new one, whose fields hold anything, and the first call starts it. -/
theorem watcher_follows_iff (hw : w.active = false) (fd : ℕ) (hm : m ≠ Mask.none) {calls : List IoCall}
    (hcalls : ∀ k ∈ calls, k.mask ≠ Mask.none) :
    Always (fun s k => some (s.next fd k)) (Watch.Agrees fd) ⟨startIoEvent w fd m, ⟨m, m⟩⟩ calls ↔
      Along (fun i k => some (i.next k)) Interest.Allows ⟨m, m⟩ calls := by
  have hstart : startIoEvent w fd m = ⟨true, fd, m⟩ := by
    unfold startIoEvent
    rw [if_neg (by rw [hw]; exact Bool.false_ne_true)]
  have hfollows : WatchFollows fd (startIoEvent w fd m) ⟨m, m⟩ := by
    rw [hstart]
    exact ⟨iff_of_true rfl hm, fun _ => rfl, rfl, fun _ => rfl⟩
  exact follows_always_iff hfollows hcalls

/-- Reading and writing, as a connection uses its watcher. -/
theorem watcher_follows_replies :
    Always (fun s k => some (s.next 5 k)) (Watch.Agrees 5)
      ⟨startIoEvent createIoEvent 5 Mask.READ, ⟨Mask.READ, Mask.READ⟩⟩
      [.start Mask.WRITE, .stop Mask.WRITE, .stop Mask.WRITE] :=
  (watcher_follows_iff rfl 5 (by decide) (by decide)).mpr (by decide)

/-- Both events stopped at once, and then one of them again: the watcher is back for the other. -/
theorem second_stop_restarts :
    ¬ Always (fun s k => some (s.next 5 k)) (Watch.Agrees 5)
        ⟨startIoEvent createIoEvent 5 (Mask.READ.union Mask.WRITE),
          ⟨Mask.READ.union Mask.WRITE, Mask.READ.union Mask.WRITE⟩⟩
        [.stop (Mask.READ.union Mask.WRITE), .stop Mask.WRITE] := by
  intro h
  have hagree : Watch.Agrees 5 _ := (h.2 _ rfl).2 _ rfl
  exact absurd hagree (by decide)

end Spigeon
