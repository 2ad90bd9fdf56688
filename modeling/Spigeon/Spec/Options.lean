import Spigeon.Lib.CInt
import Spigeon.Lib.Memory
import Spigeon.Spec.Config

/-!
# The options of a server

`timetoll` and `memtoll` of `util/utils.cpp`, the setters of `util/config_file.cpp`, and
`server_cmd_table` of `server/server.cpp`. The options are the bytes of a
`GenericServerOptions` on LP64, low byte first. Signed products wrap, as compiled code has
it.
-/

namespace Spigeon

open CInt CStr Memory

/-! ### Numbers with units -/

/-- A unit, what it stands for, and what the constant expression of the source gives for it. -/
structure UnitOf where
  name : List UInt8
  value : ℤ
  mul : ℤ
deriving DecidableEq, Repr

/-- The units of `timetoll`. All its constants are products of `int`. -/
def timeUnits : List UnitOf :=
  [⟨[], 1, 1⟩, ⟨bytes "us", 1, 1⟩, ⟨bytes "ms", 1000, 1000⟩,
    ⟨bytes "s", 1000000, toInt (1000 * 1000)⟩,
    ⟨bytes "m", 60000000, toInt (60 * 1000 * 1000)⟩,
    ⟨bytes "h", 3600000000, toInt (60 * 60 * 1000 * 1000)⟩]

/-- The units of `memtoll`. The last two constants are products of `long`. -/
def memUnits : List UnitOf :=
  [⟨[], 1, 1⟩, ⟨bytes "b", 1, 1⟩, ⟨bytes "k", 1000, 1000⟩, ⟨bytes "kb", 1024, 1024⟩,
    ⟨bytes "m", 1000000, toInt (1000 * 1000)⟩,
    ⟨bytes "mb", 1048576, toInt (1024 * 1024)⟩,
    ⟨bytes "g", 1000000000, toInt64 (1000 * 1000 * 1000)⟩,
    ⟨bytes "gb", 1073741824, toInt64 (1024 * 1024 * 1024)⟩]

/-- `while (*u && isdigit(*u)) u++;`: how far `u` comes. -/
def scanDigits (p : List UInt8) : ℕ := (p.takeWhile isDigit).length

/-- The same with `if (*u == '-') u++;` before it. -/
def scanSigned : List UInt8 → ℕ
  | [] => 0
  | b :: p => if b = 45 then 1 + scanDigits p else scanDigits (b :: p)

/-- The common text of `timetoll` and `memtoll`: the value, and what is stored in `*err`. -/
def unitstoll (scan : List UInt8 → ℕ) (units : List UnitOf) (p : List UInt8) : ℤ × Bool :=
  let e := units.find? fun e => caseEq (p.drop (scan p)) e.name
  -- an unknown unit is an error, and counts as 1
  let mul := e.elim 1 UnitOf.mul
  -- `digits` is an `unsigned int`, and the copy has 128 bytes
  let digits := scan p % 2 ^ 32
  if digits ≥ 128 then (2 ^ 63 - 1, true)
  else (toInt64 (strtoll (p.take digits) * mul), e.isNone)

def timetoll : List UInt8 → ℤ × Bool := unitstoll scanDigits timeUnits

def memtoll : List UInt8 → ℤ × Bool := unitstoll scanSigned memUnits

/-- `atoi`, which is `(int)strtol(s, NULL, 10)`. -/
def atoi (s : List UInt8) : ℤ := toInt (strtoll s)

/-! ### The setters -/

/-- The beginning that all setters share: they give up without an argument, and read the first. -/
def withArg (set : List UInt8 → ℕ → Mem → Mem × ℤ) (argc : ℤ) (argv : List (List UInt8))
    (offset : ℕ) (conf : Mem) : Option (Mem × ℤ) :=
  if argc < 1 then some (conf, configError)
  else argv.head?.map fun arg => set (cStr arg) offset conf

def confSetFlagSlot : ℤ → List (List UInt8) → ℕ → Mem → Option (Mem × ℤ) :=
  withArg fun arg offset conf =>
    if caseEq arg (bytes "yes") then (store conf offset 1 1, configOk)
    else if caseEq arg (bytes "no") then (store conf offset 1 0, configOk)
    else (conf, configError)

/-- Writes a `long long`. The address for `err` is `NULL`. -/
def confSetUsecSlot : ℤ → List (List UInt8) → ℕ → Mem → Option (Mem × ℤ) :=
  withArg fun arg offset conf => (store conf offset 8 (toSize (timetoll arg).1), configOk)

/-- `dup` is the address at which `zstrdup` puts its copy. -/
def confSetStrSlot (dup : List UInt8 → ℕ) : ℤ → List (List UInt8) → ℕ → Mem → Option (Mem × ℤ) :=
  withArg fun arg offset conf => (store conf offset 8 (dup arg), configOk)

/-- Writes an `int`, whatever the slot is. -/
def confSetNumSlot : ℤ → List (List UInt8) → ℕ → Mem → Option (Mem × ℤ) :=
  withArg fun arg offset conf => (store conf offset 4 (toSize (atoi arg)), configOk)

def confSetMemSlot : ℤ → List (List UInt8) → ℕ → Mem → Option (Mem × ℤ) :=
  withArg fun arg offset conf => (store conf offset 8 (toSize (memtoll arg).1), configOk)

/-! ### The slots of the server -/

/-- The setters by name. -/
inductive Setter
  | str
  | num
  | flag
  | usec
  | mem
deriving DecidableEq, Repr

def Setter.run (dup : List UInt8 → ℕ) : Setter → ℤ → List (List UInt8) → ℕ → Mem → Option (Mem × ℤ)
  | .str => confSetStrSlot dup
  | .num => confSetNumSlot
  | .flag => confSetFlagSlot
  | .usec => confSetUsecSlot
  | .mem => confSetMemSlot

/-- The types of the fields of `GenericServerOptions` that the table names. -/
inductive SlotType
  | charPtr
  | uint16
  | int32
  | bool
  | uint64
deriving DecidableEq, Repr

/-- An entry of the table with the type of the field at its offset. -/
structure Slot where
  name : List UInt8
  setter : Setter
  offset : ℕ
  type : SlotType
deriving DecidableEq, Repr

/-- `server_cmd_table`, in its order. `SERVER_TYPE` is as wide as an `int`. -/
def serverSlots : List Slot :=
  [⟨bytes "ip", .str, 0, .charPtr⟩,
    ⟨bytes "port", .num, 8, .uint16⟩,
    ⟨bytes "worker_num", .num, 12, .int32⟩,
    ⟨bytes "bind_cpu", .flag, 20, .bool⟩,
    ⟨bytes "server_type", .num, 16, .int32⟩,
    ⟨bytes "connection_timeout", .usec, 24, .uint64⟩,
    ⟨bytes "tick", .usec, 32, .uint64⟩,
    ⟨bytes "max_io_buffer_size", .mem, 40, .uint64⟩,
    ⟨bytes "max_reply_list_size", .num, 48, .int32⟩]

theorem withArg_careful (set : List UInt8 → ℕ → Mem → Mem × ℤ) (argv : List (List UInt8))
    (offset : ℕ) (conf : Mem) :
    withArg set argv.length argv offset conf ≠ none ∧ withArg set (-1) [] offset conf ≠ none := by
  refine ⟨?_, Option.some_ne_none _⟩
  cases argv with
  | nil => exact Option.some_ne_none _
  | cons arg argv =>
    rw [withArg, if_neg (by rw [List.length_cons]; omega)]
    exact Option.some_ne_none _

theorem Setter.run_eq (dup : List UInt8 → ℕ) (s : Setter) : ∃ set, s.run dup = withArg set := by
  cases s with
  | str => exact ⟨_, confSetStrSlot.eq_1 dup⟩
  | num => exact ⟨_, confSetNumSlot.eq_1⟩
  | flag => exact ⟨_, confSetFlagSlot.eq_1⟩
  | usec => exact ⟨_, confSetUsecSlot.eq_1⟩
  | mem => exact ⟨_, confSetMemSlot.eq_1⟩

/-- The command of an entry. -/
def Slot.command (dup : List UInt8 → ℕ) (s : Slot) : Command Mem where
  name := s.name
  handler := s.setter.run dup
  offset := s.offset
  careful := by
    intro argv conf
    obtain ⟨set, hset⟩ := s.setter.run_eq dup
    rw [hset]
    exact withArg_careful set argv s.offset conf

def serverCmdTable (dup : List UInt8 → ℕ) : List (Command Mem) := serverSlots.map (Slot.command dup)

/-- What a field holds, as a number. -/
def SlotType.read (conf : Mem) (offset : ℕ) : SlotType → ℤ
  | .charPtr => load conf offset 8
  | .uint16 => load conf offset 2
  | .int32 => toInt (load conf offset 4)
  | .bool => load conf offset 1
  | .uint64 => load conf offset 8

end Spigeon
