import Spigeon.Lib.CInt
import Spigeon.Lib.CStr
import Spigeon.Spec.Log
import Spigeon.Spec.Sds

/-!
# The text of a log record

`log_data_push_*` and `log_printf` of `util/log.cpp`, up to the push to the list. Both put
their text together in a block of fixed size, with a pointer into it and the number of
bytes left. The model keeps the pair as it stands before every append. A write outside the
block is `none`.
-/

namespace Spigeon

open CInt CStr

/-- `LOG_BUF_LEN_MAX`. -/
def logBufLenMax : ℕ := 2 * 2048

/-- `LOG_ITEM_LEN_MAX`. -/
def logItemLenMax : ℕ := 2048

/-- What a `printf` makes of its format and arguments: the text, and whether the call fails. The
length of a text that does not fail is an `int`. -/
structure Printed where
  text : List UInt8
  failed : Bool
  fits : failed = false → text.length < 2 ^ 31

/-- A format without conversions, or with conversions of strings only. -/
def Printed.ofText (text : List UInt8) : Printed :=
  ⟨text, decide (2 ^ 31 ≤ text.length), fun h => by simpa using h⟩

/-- The result of the `printf`. -/
def Printed.ret (p : Printed) : ℤ := if p.failed then -1 else p.text.length

/-- A block that is being filled: `buf` as an offset into it, `size`, and the two as they were before
each append. -/
structure LogCursor where
  block : List UInt8
  buf : ℤ
  size : ℤ
  appends : List (ℤ × ℤ)

namespace LogCursor

/-- The start of a block. -/
def start (block : List UInt8) : LogCursor := ⟨block, 0, block.length, []⟩

/-- A write to the bytes from offset `i` on. -/
def write (c : LogCursor) (i : ℤ) (xs : List UInt8) : Option LogCursor :=
  if i < 0 then none else (poke c.block i.toNat xs).map fun b => { c with block := b }

def mark (c : LogCursor) : LogCursor := { c with appends := c.appends ++ [(c.buf, c.size)] }

/-- The pointer moves by `ret`. -/
def advance (c : LogCursor) (ret : ℤ) : LogCursor :=
  { c with buf := c.buf + ret, size := c.size - ret }

/-- `_ADJUST_LOG_BUF_CURSOR`. -/
def adjust (c : LogCursor) (ret : ℤ) : LogCursor :=
  if ret < 0 then c.advance 0
  else if ret ≥ c.size then c.advance (c.size - 1)
  else c.advance ret

/-- `ret = snprintf(buf, size, ...)` and `_ADJUST_LOG_BUF_CURSOR`. Of a text that does not fit, all
but the last byte of the room is used, for the terminator. -/
def print (c : LogCursor) (p : Printed) : Option LogCursor :=
  let n := toSize c.size
  if n = 0 then some (c.mark.adjust p.ret)
  else (c.mark.write c.buf (p.text.take (n - 1) ++ [0])).map fun c => c.adjust p.ret

/-- `_ADD_BLANK_SPACE`. -/
def addBlankSpace (c : LogCursor) : Option LogCursor :=
  if c.size > 0 then
    -- two writes, though only one byte is known to be left
    (c.mark.write c.buf [32]).bind fun c =>
      (c.write (c.buf + 1) [0]).map fun c => c.advance 1
  else some c.mark

/-- The copy of a pushed item in `log_printf`. -/
def copyItem (c : LogCursor) (item : List UInt8) : Option LogCursor :=
  let ret : ℤ :=
    if c.size > item.length then item.length
    else if c.size > 0 then c.size - 1
    else 0
  (c.mark.write c.buf (item.take ret.toNat)).bind fun c =>
    (c.write (c.buf + ret) [0]).map fun c => c.advance ret

end LogCursor

/-! ### Pushed items -/

/-- The text of a node after `_PUSH`: the key, `=` and the value. `block` is what the node's buffer
held before. -/
def pushedItem (block : List UInt8) (key value : Printed) : Option (List UInt8) :=
  ((LogCursor.start block).print key).bind fun c =>
    (c.print (.ofText (bytes "="))).bind fun c =>
      (c.print value).map fun c => c.block.take c.buf.toNat

/-- `_PUSH` on a chain of nodes, the first of which `log_data_new` has made empty. -/
def logDataPush (block : List UInt8) (ld : List (List UInt8)) (key value : Printed) :
    Option (List (List UInt8)) :=
  (pushedItem block key value).map fun item =>
    if ld.getLast?.any fun node => node.length > 0 then ld ++ [item]
    else ld.dropLast ++ [item]

/-! ### `log_printf` -/

/-- The arguments of `log_printf` but the chain, and what it asks the system for. -/
structure LogCall where
  level : LogLevel
  fileline : Option (List UInt8)
  function : Option (List UInt8)
  levelstr : List UInt8
  timebuf : List UInt8
  binName : List UInt8
  pid : List UInt8
  message : Printed

/-- The colour of a level. -/
def LogLevel.color : LogLevel → List UInt8
  | .warning => bytes "\x1b[33m"
  | .fatal => bytes "\x1b[1m\x1b[31m"
  | .notice => bytes "\x1b[36m"
  | .trace => bytes "\x1b[37m"
  | .debug => bytes "\x1b[1m\x1b[37m"
  | .monitor => bytes "\x1b[1m\x1b[37m"

/-- `"%s%s: %s %s * %d ["`. -/
def LogCall.headText (a : LogCall) : List UInt8 :=
  a.level.color ++ a.levelstr ++ bytes ": " ++ a.timebuf ++ bytes " " ++ a.binName ++
    bytes " * " ++ a.pid ++ bytes " ["

namespace LogCursor

def printFile (c : LogCursor) : Option (List UInt8) → Option LogCursor
  | none => some c
  | some fileline => (c.print (.ofText (bytes "file="))).bind fun c => c.print (.ofText fileline)

def printFunction (c : LogCursor) : Option (List UInt8) → Option LogCursor
  | none => some c
  | some function =>
    (c.print (.ofText (bytes " function="))).bind fun c =>
      (c.print (.ofText function)).bind fun c => c.addBlankSpace

/-- The loop over the pushed items. -/
def copyItems (c : LogCursor) : List (List UInt8) → Option LogCursor
  | [] => some c
  | item :: ld => (c.copyItem item).bind fun c => c.addBlankSpace.bind fun c => c.copyItems ld

/-- What stands before the label `user_msg`. -/
def printHead (c : LogCursor) (ld : List (List UInt8)) (a : LogCall) : Option LogCursor :=
  -- the records of the monitor have a message only
  if a.level = .monitor then some c
  else
    (c.print (.ofText a.headText)).bind fun c =>
      (c.printFile a.fileline).bind fun c =>
        (c.printFunction a.function).bind fun c => c.copyItems ld

/-- `if (*(buf - 1) != '\n') *(buf-1) = '\n';`. -/
def patchNewline (c : LogCursor) : Option LogCursor :=
  if c.buf < 1 then none
  else
    match c.block[(c.buf - 1).toNat]? with
    | none => none
    | some b => if b = 10 then some c else c.write (c.buf - 1) [10]

/-- What stands behind the label `user_msg`. -/
def printTail (c : LogCursor) (a : LogCall) : Option LogCursor :=
  (if a.level = .monitor then some c else c.print (.ofText (bytes "msg="))).bind fun c =>
    (c.print a.message).bind fun c =>
      (c.print (.ofText (bytes "]\x1b[0m\n"))).bind fun c => c.patchNewline

end LogCursor

/-- `log_printf`, up to the push to the list: the block, with the length of the record in `buf`. The
chain `NULL` is the empty list. -/
def logPrintf (block : List UInt8) (ld : List (List UInt8)) (a : LogCall) : Option LogCursor :=
  ((LogCursor.start block).printHead ld a).bind fun c => c.printTail a

end Spigeon
