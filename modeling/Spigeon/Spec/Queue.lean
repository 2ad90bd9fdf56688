import Mathlib.Data.List.ReduceOption
import Mathlib.Data.Nat.Notation
import Mathlib.Logic.Function.Basic
import Spigeon.Lib.Chain

/-!
# `LockFreeQueue`

`util/queue.h`, one step for each read or write of a shared pointer, of a node's field
and for each allocation and deletion. Pointers are node identities, numbered in the order
of allocation and never used twice; `addr` is the address of a node. Pointers are
compared by address, and a new node may get the address of a deleted one. A step that
follows a pointer to a deleted node or a NULL pointer sets `fault`, as does a second
deletion; nothing happens afterwards.

`produced`, `published`, `results` and `deleted` only serve the statements.
-/

namespace Spigeon

abbrev Node (α : Type) := Cell ℕ α

/-- Where `produce` is: the comment names the next access. -/
inductive Producer (α : Type) where
  | idle
  /-- `new Node(t)` -/
  | alloc (t : α)
  /-- read `last` of `last->next = ...` -/
  | readLast (t : α) (n : ℕ)
  /-- write `last->next` -/
  | link (t : α) (n l : ℕ)
  /-- read `last` of `last = last->next` -/
  | rereadLast (t : α)
  /-- read `last->next` -/
  | readNext (t : α) (l : ℕ)
  /-- write `last` -/
  | publish (t : α) (n : ℕ)
  /-- read `first` of `first != divider` -/
  | loop
  /-- read `divider` and compare -/
  | compare (f : ℕ)
  /-- read `first` of `temp = first` -/
  | readTemp
  /-- read `first` of `first = first->next` -/
  | readFirst (temp : ℕ)
  /-- read `first->next` -/
  | readFirstNext (temp f : ℕ)
  /-- write `first` -/
  | writeFirst (temp n : ℕ)
  /-- `delete temp` -/
  | delete (temp : ℕ)
deriving DecidableEq, Repr

/-- Where `consume` is. -/
inductive Consumer (α : Type) where
  | idle
  /-- read `divider` of `divider != last` -/
  | readDivider
  /-- read `last` and compare -/
  | compare (d : ℕ)
  /-- read `divider` of `divider->next->value` -/
  | rereadDivider
  /-- read `divider->next` -/
  | readNext (d : ℕ)
  /-- read the value -/
  | readValue (n : ℕ)
  /-- read `divider` of `divider = divider->next` -/
  | readDividerAgain (v : α)
  /-- read `divider->next` -/
  | readNextAgain (v : α) (d : ℕ)
  /-- write `divider` and return true -/
  | writeDivider (v : α) (n : ℕ)
deriving DecidableEq, Repr

/-- What both threads share, and the record of what happened. -/
structure Shared (α : Type) where
  heap : ℕ → Option (Node α)
  addr : ℕ → ℕ
  allocated : ℕ
  first : ℕ
  divider : ℕ
  last : ℕ
  produced : List α
  published : List α
  /-- What each call of `consume` has returned: `none` is false, and a value is true with it. -/
  results : List (Option α)
  deleted : List ℕ

structure LockFreeQueue (α : Type) where
  sh : Shared α
  prod : Producer α
  cons : Consumer α
  fault : Bool

inductive QueueEvent (α : Type) where
  /-- the producer thread calls `produce` -/
  | produce (t : α)
  /-- the allocator finds room at an address -/
  | alloc (a : ℕ)
  /-- the producer thread makes its next access -/
  | prod
  /-- the consumer thread calls `consume` -/
  | consume
  /-- the consumer thread makes its next access -/
  | cons

variable {α : Type}

namespace Shared

/-- No live node is at the address. -/
def Vacant (s : Shared α) (a : ℕ) : Prop := ∀ p < s.allocated, (s.heap p).isSome → s.addr p ≠ a

instance (s : Shared α) (a : ℕ) : Decidable (s.Vacant a) := inferInstanceAs (Decidable (∀ _, _ → _))

def new (s : Shared α) (t : α) (a : ℕ) : Shared α :=
  { s with
    heap := Function.update s.heap s.allocated (some ⟨t, none⟩)
    addr := Function.update s.addr s.allocated a
    allocated := s.allocated + 1 }

def setNext (s : Shared α) (p : ℕ) (c : Node α) (n : ℕ) : Shared α :=
  { s with heap := Function.update s.heap p (some ⟨c.value, some n⟩) }

def free (s : Shared α) (p : ℕ) : Shared α :=
  { s with heap := Function.update s.heap p none, deleted := p :: s.deleted }

/-- A call of `consume` returns. -/
def consumeReturns (s : Shared α) (r : Option α) : Shared α := { s with results := s.results ++ [r] }

/-- The values that `consume` has returned. -/
def consumed (s : Shared α) : List α := s.results.reduceOption

end Shared

namespace LockFreeQueue

/-- `first = divider = last = new Node(T())`. -/
def init [Inhabited α] (a : ℕ) : LockFreeQueue α :=
  ⟨⟨Function.update (fun _ => none) 0 (some ⟨default, none⟩), fun _ => a, 1, 0, 0, 0, [], [], [], []⟩,
    .idle, .idle, false⟩

def crash (s : LockFreeQueue α) : LockFreeQueue α := { s with fault := true }

/-- An access to the fields of a node. -/
def deref (s : LockFreeQueue α) (p : ℕ) (k : Node α → LockFreeQueue α) : LockFreeQueue α :=
  match s.sh.heap p with
  | some c => k c
  | none => s.crash

/-- An access to `p->next` whose value the code goes on with. -/
def derefNext (s : LockFreeQueue α) (p : ℕ) (k : ℕ → LockFreeQueue α) : LockFreeQueue α :=
  s.deref p fun c =>
    match c.next with
    | some n => k n
    | none => s.crash

/-- One access of `produce`. -/
def prodStep (s : LockFreeQueue α) : Option (LockFreeQueue α) :=
  match s.prod with
  | .idle => none
  | .alloc _ => none
  | .readLast t n => some { s with prod := .link t n s.sh.last }
  | .link t n l => some (s.deref l fun c => { s with sh := s.sh.setNext l c n, prod := .rereadLast t })
  | .rereadLast t => some { s with prod := .readNext t s.sh.last }
  | .readNext t l => some (s.derefNext l fun n => { s with prod := .publish t n })
  | .publish t n =>
    some { s with sh := { s.sh with last := n, published := s.sh.published ++ [t] }, prod := .loop }
  | .loop => some { s with prod := .compare s.sh.first }
  | .compare f => some { s with prod := if s.sh.addr f ≠ s.sh.addr s.sh.divider then .readTemp else .idle }
  | .readTemp => some { s with prod := .readFirst s.sh.first }
  | .readFirst temp => some { s with prod := .readFirstNext temp s.sh.first }
  | .readFirstNext temp f => some (s.derefNext f fun n => { s with prod := .writeFirst temp n })
  | .writeFirst temp n => some { s with sh := { s.sh with first := n }, prod := .delete temp }
  | .delete temp => some (s.deref temp fun _ => { s with sh := s.sh.free temp, prod := .loop })

/-- One access of `consume`. -/
def consStep (s : LockFreeQueue α) : Option (LockFreeQueue α) :=
  match s.cons with
  | .idle => none
  | .readDivider => some { s with cons := .compare s.sh.divider }
  | .compare d =>
    if s.sh.addr d ≠ s.sh.addr s.sh.last then some { s with cons := .rereadDivider }
    else some { s with sh := s.sh.consumeReturns none, cons := .idle }
  | .rereadDivider => some { s with cons := .readNext s.sh.divider }
  | .readNext d => some (s.derefNext d fun n => { s with cons := .readValue n })
  | .readValue n => some (s.deref n fun c => { s with cons := .readDividerAgain c.value })
  | .readDividerAgain v => some { s with cons := .readNextAgain v s.sh.divider }
  | .readNextAgain v d => some (s.derefNext d fun n => { s with cons := .writeDivider v n })
  | .writeDivider v n =>
    some { s with sh := { s.sh with divider := n }.consumeReturns (some v), cons := .idle }

def step (s : LockFreeQueue α) (e : QueueEvent α) : Option (LockFreeQueue α) :=
  if s.fault then none
  else
    match e with
    | .produce t =>
      match s.prod with
      | .idle => some { s with sh := { s.sh with produced := s.sh.produced ++ [t] }, prod := .alloc t }
      | _ => none
    | .alloc a =>
      match s.prod with
      | .alloc t =>
        if s.sh.Vacant a then some { s with sh := s.sh.new t a, prod := .readLast t s.sh.allocated } else none
      | _ => none
    | .prod => s.prodStep
    | .consume =>
      match s.cons with
      | .idle => some { s with cons := .readDivider }
      | _ => none
    | .cons => s.consStep

end LockFreeQueue

end Spigeon
