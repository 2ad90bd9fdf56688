import Mathlib.Data.Nat.Notation

/-!
# IO watchers

`server/event.cpp`. A watcher is the libev `ev_io` behind an `IOWatcher`: whether it
is active, its descriptor and its `events` field. `ev_io_stop` deactivates and leaves
the field as it is; `ev_io_set` replaces descriptor and events; `ev_io_start`
activates. A mask is a set over `READ` and `WRITE`, so `TRANS_TO_EV_MASK` and
`TRANS_FROM_EV_MASK` are the identity on it.
-/

namespace Spigeon

/-- A set of `EventLoop::READ`, `EventLoop::WRITE`. -/
structure Mask where
  read : Bool
  write : Bool
deriving DecidableEq, Repr

namespace Mask

def READ : Mask := ⟨true, false⟩

def WRITE : Mask := ⟨false, true⟩

/-- `EV_NONE`. -/
def none : Mask := ⟨false, false⟩

def union (a b : Mask) : Mask := ⟨a.read || b.read, a.write || b.write⟩

def diff (a b : Mask) : Mask := ⟨a.read && !b.read, a.write && !b.write⟩

end Mask

/-- The `ev_io` of an `IOWatcher`. -/
structure IOWatcher where
  active : Bool
  fd : ℕ
  events : Mask
deriving DecidableEq, Repr

/-- `create_io_event`: `ev_init` leaves the watcher inactive. -/
def createIoEvent : IOWatcher := ⟨false, 0, Mask.none⟩

def startIoEvent (w : IOWatcher) (fd : ℕ) (mask : Mask) : IOWatcher :=
  if w.active then
    let events := w.events.union mask
    if w.events = events then w else ⟨true, fd, events⟩
  else ⟨true, fd, mask⟩

def stopIoEvent (w : IOWatcher) (fd : ℕ) (mask : Mask) : IOWatcher :=
  let events := w.events.diff mask
  if w.events = events then w
  else if events ≠ Mask.none then ⟨true, fd, events⟩
  else { w with active := false }

/-- A call of one of the two functions. -/
inductive IoCall where
  | start (mask : Mask)
  | stop (mask : Mask)
deriving DecidableEq, Repr

def IoCall.mask : IoCall → Mask
  | .start mask => mask
  | .stop mask => mask

def IoCall.run (fd : ℕ) (w : IOWatcher) : IoCall → IOWatcher
  | .start mask => startIoEvent w fd mask
  | .stop mask => stopIoEvent w fd mask

end Spigeon
