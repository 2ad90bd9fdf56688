import Mathlib.Logic.Function.Basic
import Spigeon.Lib.CInt
import Spigeon.Lib.Lifetime

/-!
# Statistics by thread

`util/stat.cpp`. Each thread has its own `stat_data_t`, made at its first call, which it finds through a
`pthread_key_t`; all of them are in `stat_thread_data_list`. Updates go to the data of the calling
thread; `stat_get_sum`, `stat_get_max` and `stat_get_all` go through the list.

Threads and data are numbered in the order of creation, and no number is used twice. A
thread that has exited makes no more calls; its data stays in the list. A call is one step.
`stat_destroy` deletes the data and leaves the pointers of the threads as they are; a call
through such a pointer works on what was there, and `acts` records the access.
-/

namespace Spigeon

open CInt Lifetime

/-- `std::map<std::string, int64_t>`. -/
abbrev StatContainer := String → Option ℤ

namespace StatContainer

/-- The value of `m[key]`, 0 for a key that is not there. -/
def valueAt (m : StatContainer) (key : String) : ℤ := (m key).getD 0

def assign (m : StatContainer) (key : String) (value : ℤ) : StatContainer := Function.update m key (some value)

/-- `m[key]` inserts the key if it is not there. -/
def touch (m : StatContainer) (key : String) : StatContainer := m.assign key (m.valueAt key)

end StatContainer

structure Stat where
  /-- `int_value` of each `stat_data_t` -/
  data : ℕ → StatContainer
  created : ℕ
  /-- `stat_thread_data_list` -/
  list : List ℕ
  /-- `pthread_getspecific` in each thread -/
  specific : ℕ → Option ℕ
  acts : List (Act ℕ)

/-- `INT64_MIN`. -/
def int64Min : ℤ := -2 ^ 63

namespace Stat

def init : Stat := ⟨fun _ _ => none, 0, [], fun _ => none, []⟩

def initThreadData (s : Stat) (t : ℕ) : Stat :=
  { s with
    data := Function.update s.data s.created fun _ => none
    created := s.created + 1
    list := s.list ++ [s.created]
    specific := Function.update s.specific t (some s.created) }

def getThreadData (s : Stat) (t : ℕ) : ℕ × Stat :=
  match s.specific t with
  | some i => (i, s)
  | none => (s.created, s.initThreadData t)

/-- A loop body or a call that works on one `stat_data_t` under its mutex. -/
def access (s : Stat) (i : ℕ) (f : StatContainer → StatContainer) : Stat :=
  { s with data := Function.update s.data i (f (s.data i)), acts := s.acts ++ [.use i] }

/-- The common part of the calls that work on the data of the calling thread. -/
def onThreadData (s : Stat) (t : ℕ) (f : StatContainer → StatContainer) : Stat :=
  (s.getThreadData t).2.access (s.getThreadData t).1 f

def statSet (s : Stat) (t : ℕ) (key : String) (value : ℤ) : Stat := s.onThreadData t fun m => m.assign key value

def statSetMax (s : Stat) (t : ℕ) (key : String) (value : ℤ) : Stat :=
  s.onThreadData t fun m => if value > m.valueAt key then (m.touch key).assign key value else m.touch key

def statIncr (s : Stat) (t : ℕ) (key : String) (step : ℤ) : Stat :=
  s.onThreadData t fun m => m.assign key (toInt64 (m.valueAt key + step))

def statDecr (s : Stat) (t : ℕ) (key : String) (step : ℤ) : Stat :=
  s.onThreadData t fun m => m.assign key (toInt64 (m.valueAt key - step))

def statGet (s : Stat) (t : ℕ) (key : String) : ℤ × Stat :=
  (((s.getThreadData t).2.data (s.getThreadData t).1).valueAt key, s.onThreadData t fun m => m.touch key)

/-- The loop of `stat_get_sum`. -/
def sumLoop (key : String) : List ℕ → ℤ → Stat → ℤ × Stat
  | [], result, s => (result, s)
  | i :: is, result, s =>
    sumLoop key is (toInt64 (result + (s.data i).valueAt key)) (s.access i fun m => m.touch key)

def statGetSum (s : Stat) (key : String) : ℤ × Stat := sumLoop key s.list 0 s

/-- The loop of `stat_get_max`. -/
def maxLoop (key : String) : List ℕ → ℤ → Stat → ℤ × Stat
  | [], result, s => (result, s)
  | i :: is, result, s =>
    let result :=
      match s.data i key with
      | some v => if v > result then v else result
      | none => result
    maxLoop key is result (s.access i id)

def statGetMax (s : Stat) (key : String) : ℤ × Stat := maxLoop key s.list int64Min s

/-- The loop over one map in `stat_get_all`. Its body reads and writes the entries of one key, so this is what
it does for each key. -/
def addSum (sumResult m : StatContainer) : StatContainer := fun key =>
  match m key with
  | some v => some (toInt64 (sumResult.valueAt key + v))
  | none => sumResult key

def addMax (maxResult m : StatContainer) : StatContainer := fun key =>
  match m key with
  | some v =>
    let r := (maxResult key).getD v
    some (if r < v then v else r)
  | none => maxResult key

/-- The body of that loop for one entry of the map. -/
def allBody (result : StatContainer × StatContainer) (entry : String × ℤ) : StatContainer × StatContainer :=
  let sumResult := result.1.assign entry.1 (toInt64 (result.1.valueAt entry.1 + entry.2))
  let maxResult := if result.2 entry.1 = none then result.2.assign entry.1 entry.2 else result.2
  -- the second `if` is not chained to the first
  let maxResult :=
    if maxResult.valueAt entry.1 < entry.2 then (maxResult.touch entry.1).assign entry.1 entry.2
    else maxResult.touch entry.1
  (sumResult, maxResult)

/-- The loop of `stat_get_all`. -/
def allLoop : List ℕ → StatContainer × StatContainer → Stat → (StatContainer × StatContainer) × Stat
  | [], result, s => (result, s)
  | i :: is, result, s => allLoop is (addSum result.1 (s.data i), addMax result.2 (s.data i)) (s.access i id)

def statGetAll (s : Stat) : (StatContainer × StatContainer) × Stat :=
  allLoop s.list (fun _ => none, fun _ => none) s

def statDestroy (s : Stat) : Stat := { s with list := [], acts := s.acts ++ s.list.map .drop }

end Stat

inductive StatEvent where
  | set (t : ℕ) (key : String) (value : ℤ)
  | setMax (t : ℕ) (key : String) (value : ℤ)
  | incr (t : ℕ) (key : String) (step : ℤ)
  | decr (t : ℕ) (key : String) (step : ℤ)
  | get (t : ℕ) (key : String)
  | getSum (key : String)
  | getMax (key : String)
  | getAll
  | destroy
deriving DecidableEq, Repr

namespace Stat

def next (s : Stat) : StatEvent → Stat
  | .set t key value => s.statSet t key value
  | .setMax t key value => s.statSetMax t key value
  | .incr t key step => s.statIncr t key step
  | .decr t key step => s.statDecr t key step
  | .get t key => (s.statGet t key).2
  | .getSum key => (s.statGetSum key).2
  | .getMax key => (s.statGetMax key).2
  | .getAll => s.statGetAll.2
  | .destroy => s.statDestroy

/-- Every call can be made at any time. -/
def step (s : Stat) (e : StatEvent) : Option Stat := some (s.next e)

/-- The state after a run of calls. -/
def after (es : List StatEvent) : Stat := es.foldl next init

end Stat

end Spigeon
