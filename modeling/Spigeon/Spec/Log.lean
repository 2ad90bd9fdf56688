import Mathlib.Data.List.Basic

/-!
# The asynchronous logger

`util/log.cpp`: the end of `log_printf`, `log_thread_loop` and `log_close`. Threads push records
to `g_log_list`; the log thread takes them from its front, writes them to the stream of
their file and flushes the streams it wrote to after each drain.

A step is one access to the list, to `g_log_running` or to a file. A record is the
`log_buf_t` behind the pointer in the list: its number in the order of the pushes and its
level; its text is formatted before the push and not looked at afterwards. `fclose` and
`fflush` move what is in the buffer of a stream to the file. The lists `pushed`, `returned` and
`due` are records of the calls: all records, those whose `log_printf` has returned, and
those that had returned when `log_close` was called.
-/

namespace Spigeon

inductive LogLevel where
  | monitor
  | debug
  | trace
  | notice
  | warning
  | fatal
deriving DecidableEq, Repr

/-- `enum log_level_t`. -/
def LogLevel.value : LogLevel → ℕ
  | .monitor => 32
  | .debug => 16
  | .trace => 8
  | .notice => 4
  | .warning => 2
  | .fatal => 1

/-- `g_logwf_f`, `g_log_f`, `g_logmonitor_f`. -/
inductive LogFile where
  | logwf
  | log
  | logmonitor
deriving DecidableEq, Repr

structure Record where
  id : ℕ
  level : LogLevel
deriving DecidableEq, Repr

/-- The choice of the file in `log_thread_loop`. -/
def Record.file (r : Record) : LogFile :=
  if r.level.value ≤ LogLevel.warning.value then .logwf
  else if r.level.value ≤ LogLevel.debug.value then .log
  else .logmonitor

/-- Where the log thread is. `dirty` are the files that have been chosen since the last
flush: `write_log`, `write_logwf`, `write_logmonitor`. -/
inductive LogThread where
  /-- before the test of `g_log_running` -/
  | test
  | sleep
  /-- before the tests for files that were moved or deleted -/
  | check (files : List LogFile)
  /-- before the test of `g_log_list.empty()` -/
  | empty (dirty : List LogFile)
  /-- before `*g_log_list.begin()` -/
  | front (dirty : List LogFile)
  | write (dirty : List LogFile) (r : Record)
  | pop (dirty : List LogFile)
  | flush (dirty files : List LogFile)
  | done
deriving DecidableEq, Repr

/-- Where `log_close` is. -/
inductive Closing where
  | before
  | called
  /-- `g_log_running` is `false` -/
  | cleared
  | returned
deriving DecidableEq, Repr

structure Logger where
  list : List Record
  running : Bool
  thread : LogThread
  /-- the buffer of each stream -/
  streams : LogFile → List Record
  files : LogFile → List Record
  closing : Closing
  pushed : List Record
  returned : List Record
  due : List Record

inductive LogEvent where
  /-- the `push_back` of a `log_printf` of any thread -/
  | push (level : LogLevel)
  /-- the `log_printf` of a record returns -/
  | ret (id : ℕ)
  /-- `log_close` is called, clears the flag, and returns after the join -/
  | close
  | clear
  | join
  /-- the log thread goes on; `moved` says whether a file it checks is gone and can be
  opened anew -/
  | thread (moved : Bool)
deriving DecidableEq, Repr

namespace Logger

/-- After `log_init`. -/
def init : Logger := ⟨[], true, .test, fun _ => [], fun _ => [], .before, [], [], []⟩

def goto (s : Logger) (t : LogThread) : Logger := { s with thread := t }

/-- `fflush`, or the `fclose` before a file is opened anew. -/
def flush (s : Logger) (f : LogFile) : Logger :=
  { s with
    files := fun g => if g = f then s.files f ++ s.streams f else s.files g
    streams := fun g => if g = f then [] else s.streams g }

def fwrite (s : Logger) (r : Record) : Logger :=
  { s with streams := fun g => if g = r.file then s.streams g ++ [r] else s.streams g }

/-- The order in which the files are checked and flushed. -/
def allFiles : List LogFile := [.log, .logwf, .logmonitor]

def threadStep (s : Logger) (moved : Bool) : Option Logger :=
  match s.thread with
  | .test => some (s.goto (if s.running then .sleep else .done))
  | .sleep => some (s.goto (.check allFiles))
  | .check [] => some (s.goto (.empty []))
  | .check (f :: fs) => some ((if moved then s.flush f else s).goto (.check fs))
  | .empty dirty => some (s.goto (if s.list = [] then .flush dirty allFiles else .front dirty))
  | .front dirty => s.list.head?.map fun r => s.goto (.write (r.file :: dirty) r)
  | .write dirty r => some ((s.fwrite r).goto (.pop dirty))
  | .pop dirty => some { s with list := s.list.tail, thread := .empty dirty }
  | .flush _ [] => some (s.goto .test)
  | .flush dirty (f :: fs) => some ((if f ∈ dirty then s.flush f else s).goto (.flush dirty fs))
  | .done => none

def push (s : Logger) (r : Record) : Logger := { s with list := s.list ++ [r], pushed := s.pushed ++ [r] }

def step (s : Logger) : LogEvent → Option Logger
  | .push level => some (s.push ⟨s.pushed.length, level⟩)
  | .ret id =>
    (s.pushed[id]?).bind fun r => if r ∈ s.returned then none else some { s with returned := s.returned ++ [r] }
  | .close => if s.closing = .before then some { s with closing := .called, due := s.returned } else none
  | .clear => if s.closing = .called then some { s with closing := .cleared, running := false } else none
  | .join => if s.closing = .cleared ∧ s.thread = .done then some { s with closing := .returned } else none
  | .thread moved => s.threadStep moved

end Logger

end Spigeon
