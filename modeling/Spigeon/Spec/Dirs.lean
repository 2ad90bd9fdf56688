import Mathlib.Data.List.Basic
import Mathlib.Logic.Function.Basic
import Spigeon.Spec.Path

/-!
# Creating the directory of a file

`FileUtil::create_parent_dir` and `FileUtil::create_dir` of `util/file.cpp`, over a file
system that answers `stat`, `access` and `mkdir`. The two functions hand the whole
`std::string` on to `dirname`, and only its C string to the system calls.
-/

namespace Spigeon

open CStr

/-- What stands in the file system: a directory, which the caller may read, write and
search or not, or something else. -/
inductive FileNode
  | dir (rwx : Bool)
  | other
deriving DecidableEq, Repr

/-- A place in the file system: the names on the way down from the root. -/
abbrev Place := List (List UInt8)

/-- A file system and the working directory of the process. What exists stands in a directory. -/
structure FileSystem where
  node : Place → Option FileNode
  cwd : Place
  root : ∃ b, node [] = some (.dir b)
  cwd_dir : ∃ b, node cwd = some (.dir b)
  closed : ∀ l x, node (l ++ [x]) ≠ none → ∃ b, node l = some (.dir b)

/-! ### Names of places -/

/-- The names between the slashes, `cur` being what was read of the first one. -/
def namesFrom : List UInt8 → List UInt8 → List (List UInt8)
  | cur, [] => if cur = [] then [] else [cur]
  | cur, b :: bs =>
    if b = slash then (if cur = [] then [] else [cur]) ++ namesFrom [] bs
    else namesFrom (cur ++ [b]) bs

def names (path : List UInt8) : List (List UInt8) := namesFrom [] path

/-- The names that every directory has. -/
def isDots (x : List UInt8) : Bool := x = [dot] || x = [dot, dot]

namespace FileSystem

/-- Where a path starts: at the root, or in the working directory. -/
def start (fs : FileSystem) : List UInt8 → Place
  | [] => []
  | b :: _ => if b = slash then [] else fs.cwd

def isDirAt (fs : FileSystem) (l : Place) : Bool :=
  match fs.node l with
  | some (.dir _) => true
  | some .other => false
  | none => false

/-- One name on the way to a directory. -/
def enter (fs : FileSystem) (l : Place) (x : List UInt8) : Option Place :=
  if x = [dot] then some l
  else if x = [dot, dot] then some l.dropLast
  else if fs.isDirAt (l ++ [x]) then some (l ++ [x]) else none

def walk (fs : FileSystem) (l : Place) (xs : List (List UInt8)) : Option Place :=
  xs.foldlM fs.enter l

/-- The directory that `path` names. -/
def locate (fs : FileSystem) (path : List UInt8) : Option Place :=
  if path = [] then none else fs.walk (fs.start path) (names path)

/-- `path` names something that is not a directory. -/
def isOther (fs : FileSystem) (path : List UInt8) : Bool :=
  match (names path).getLast?, fs.walk (fs.start path) (names path).dropLast with
  | some x, some l => fs.node (l ++ [x]) = some .other
  | some _, none => false
  | none, _ => false

/-- `access(path, F_OK) == 0`. -/
def present (fs : FileSystem) (path : List UInt8) : Bool :=
  (fs.locate path).isSome || fs.isOther path

/-- `stat` succeeds, finds a directory, and `access(path, R_OK|W_OK|X_OK) == 0`. -/
def accessible (fs : FileSystem) (path : List UInt8) : Bool :=
  match fs.locate path with
  | some l => fs.node l = some (.dir true)
  | none => false

/-- A new directory `x` in the directory at `l`. -/
def addDir (fs : FileSystem) (l : Place) (x : List UInt8) (h : fs.node l = some (.dir true)) :
    FileSystem where
  node := Function.update fs.node (l ++ [x]) (some (.dir true))
  cwd := fs.cwd
  root := by
    rw [Function.update_of_ne (by simp)]
    exact fs.root
  cwd_dir := by
    by_cases hc : fs.cwd = l ++ [x]
    · exact ⟨true, by rw [hc, Function.update_self]⟩
    · rw [Function.update_of_ne hc]
      exact fs.cwd_dir
  closed := by
    intro m y hne
    by_cases hm : m = l ++ [x]
    · exact ⟨true, by rw [hm, Function.update_self]⟩
    rw [Function.update_of_ne hm]
    by_cases hml : m ++ [y] = l ++ [x]
    · rw [(List.append_inj' hml rfl).1]
      exact ⟨true, h⟩
    · rw [Function.update_of_ne hml] at hne
      exact fs.closed m y hne

/-- `mkdir(path, 0775)`. -/
def mkdir (fs : FileSystem) (path : List UInt8) : Option FileSystem :=
  match (names path).getLast?, fs.walk (fs.start path) (names path).dropLast with
  | some x, some l =>
    if h : fs.node l = some (.dir true) then
      if isDots x ∨ fs.node (l ++ [x]) ≠ none then none else some (fs.addDir l x h)
    else none
  | some _, none => none
  | none, _ => none

/-- `0 == mkdir(path, 0775)` as the last test of the callers. -/
def makeDir (fs : FileSystem) (path : List UInt8) : ℤ × FileSystem :=
  match fs.mkdir path with
  | some fs' => (0, fs')
  | none => (-1, fs)

end FileSystem

/-- `FileUtil::create_parent_dir` with a bound on its recursion. -/
def createParentDirFuel : ℕ → FileSystem → List UInt8 → Option (ℤ × FileSystem)
  | 0, _, _ => none
  | n + 1, fs, path =>
    (dirname path false).bind fun parent =>
      if fs.accessible (cStr parent) then some (0, fs)
      -- something else stands there, or a directory without permissions
      else if fs.present (cStr parent) then some (-1, fs)
      -- all of `parent` is handed on, not only its C string
      else (createParentDirFuel n fs parent).map fun r =>
        if r.1 = 0 then r.2.makeDir (cStr parent) else (-1, r.2)

/-- `FileUtil::create_dir` with a bound on the recursion. -/
def createDirFuel (n : ℕ) (fs : FileSystem) (path : List UInt8) : Option (ℤ × FileSystem) :=
  if fs.accessible (cStr path) then some (0, fs)
  else if fs.present (cStr path) then some (-1, fs)
  else (createParentDirFuel n fs path).map fun r =>
    if r.1 = 0 then r.2.makeDir (cStr path) else (-1, r.2)

/-- `FileUtil::create_parent_dir`. Each level of the recursion has a slash less before its first
zero, or a zero more before its last slash. -/
def createParentDir (fs : FileSystem) (path : List UInt8) : Option (ℤ × FileSystem) :=
  createParentDirFuel (path.length + 2) fs path

/-! ### The recursion alone -/

/-- What the calls of `stat` and `access` say of the parent directory. -/
inductive DirAnswer
  /-- a directory with all permissions: `create_parent_dir` returns 0 -/
  | ready
  /-- something else: it returns -1 -/
  | blocked
  /-- nothing: it calls itself -/
  | missing
deriving DecidableEq, Repr

def FileSystem.answer (fs : FileSystem) (path : List UInt8) : DirAnswer :=
  if fs.accessible path then .ready else if fs.present path then .blocked else .missing

/-- The argument of the call at depth `n` of the recursion, `none` if there is no such call. `answer` are
the answers at each depth. -/
def parentCall : ℕ → (ℕ → List UInt8 → DirAnswer) → List UInt8 → Option (List UInt8)
  | 0, _, path => some path
  | n + 1, answer, path =>
    (dirname path false).bind fun parent =>
      if answer 0 (cStr parent) = .missing then parentCall n (fun d => answer (d + 1)) parent else none

end Spigeon
