import MoveTutorial.MoveRun
import MoveTutorial.MoveStorage

/-! The module `iterable_table`: a table whose values carry the previous and the next key. What a
caller does with a mutable reference to a value is an update function. -/

namespace MoveTutorial.Iterable

open Move

/-- The iterable wrapper around a value. -/
@[ext] structure IterableValue (K V : Type) where
  val : V
  prev : Option K
  next : Option K
  deriving DecidableEq, Repr

structure IterableTable (K V : Type) where
  inner : TableWithLength K (IterableValue K V)
  head : Option K
  tail : Option K

variable {K V : Type} [DecidableEq K]

def new : IterableTable K V := ⟨.new, none, none⟩

def length (table : IterableTable K V) : ℕ := table.inner.length

def empty (table : IterableTable K V) : Bool := table.inner.empty

def contains (table : IterableTable K V) (key : K) : Bool := table.inner.contains key

def destroyEmpty (table : IterableTable K V) : Exec Unit := do
  assert (empty table = true) 0
  assert (table.head.isNone = true) 0
  assert (table.tail.isNone = true) 0
  table.inner.destroyEmpty

/-- `borrow_mut(inner, key).next = next`, where there is a key. -/
def setNext (inner : TableWithLength K (IterableValue K V)) (key next : Option K) :
    Exec (TableWithLength K (IterableValue K V)) :=
  match key with
  | none => return inner
  | some k => do
      let v ← inner.borrow k
      return inner.write k { v with next := next }

/-- `borrow_mut(inner, key).prev = prev`, where there is a key. -/
def setPrev (inner : TableWithLength K (IterableValue K V)) (key prev : Option K) :
    Exec (TableWithLength K (IterableValue K V)) :=
  match key with
  | none => return inner
  | some k => do
      let v ← inner.borrow k
      return inner.write k { v with prev := prev }

def add (table : IterableTable K V) (key : K) (val : V) : Exec (IterableTable K V) := do
  let wrappedValue : IterableValue K V := { val, prev := table.tail, next := none }
  let inner ← table.inner.add key wrappedValue
  let inner ← setNext inner table.tail (some key)
  let head := if table.tail.isSome then table.head else some key
  return { inner, head, tail := some key }

def removeIter (table : IterableTable K V) (key : K) :
    Exec ((V × Option K × Option K) × IterableTable K V) := do
  let (val, inner) ← table.inner.remove key
  let tail := if table.tail = some key then val.prev else table.tail
  let head := if table.head = some key then val.next else table.head
  let inner ← setNext inner val.prev val.next
  let inner ← setPrev inner val.next val.prev
  return ((val.val, val.prev, val.next), { inner, head, tail })

def remove (table : IterableTable K V) (key : K) : Exec (V × IterableTable K V) := do
  let ((val, _, _), table') ← removeIter table key
  return (val, table')

def borrow (table : IterableTable K V) (key : K) : Exec V := do
  let v ← table.inner.borrow key
  return v.val

/-- The value behind the reference, and the table after the caller's `update` of it. -/
def borrowMut (table : IterableTable K V) (key : K) (update : V → V) : Exec (V × IterableTable K V) := do
  let v ← table.inner.borrow key
  return (v.val, { table with inner := table.inner.write key { v with val := update v.val } })

def borrowMutWithDefault (table : IterableTable K V) (key : K) (default : V) (update : V → V) :
    Exec (V × IterableTable K V) := do
  let table ← if contains table key = false then add table key default else pure table
  borrowMut table key update

def headKey (table : IterableTable K V) : Option K := table.head

def tailKey (table : IterableTable K V) : Option K := table.tail

def borrowIter (table : IterableTable K V) (key : K) : Exec (V × Option K × Option K) := do
  let v ← table.inner.borrow key
  return (v.val, v.prev, v.next)

/-- As `borrow_mut`, with the neighbours of the key. -/
def borrowIterMut (table : IterableTable K V) (key : K) (update : V → V) :
    Exec ((V × Option K × Option K) × IterableTable K V) := do
  let v ← table.inner.borrow key
  return ((v.val, v.prev, v.next), { table with inner := table.inner.write key { v with val := update v.val } })

/-! ### Appending -/

/-- One round of `append`: the entry of the key moves from `v2` to `v1`. -/
def appendRound (v1 v2 : IterableTable K V) (key : K) :
    Exec (IterableTable K V × IterableTable K V × Option K) := do
  let ((val, _, next), v2) ← removeIter v2 key
  let v1 ← add v1 key val
  return (v1, v2, next)

/-- The loop of `append` from a key, if it ends within `fuel` rounds. -/
def appendLoop : ℕ → IterableTable K V → IterableTable K V → Option K →
    Option (Exec (IterableTable K V × IterableTable K V))
  | _, v1, v2, none => some (.ok (v1, v2))
  | 0, _, _, some _ => none
  | fuel + 1, v1, v2, some key =>
      match appendRound v1 v2 key with
      | .ok (v1, v2, next) => appendLoop fuel v1 v2 next
      | .error e => some (.error e)

def append (fuel : ℕ) (v1 v2 : IterableTable K V) : Option (Exec (IterableTable K V × IterableTable K V)) :=
  appendLoop fuel v1 v2 (headKey v2)

/-! ### Calls and iteration -/

inductive Call (K V : Type) where
  | add (key : K) (val : V)
  | remove (key : K)
  | removeIter (key : K)
  | borrowMut (key : K) (update : V → V)
  | borrowMutWithDefault (key : K) (default : V) (update : V → V)

/-- What a call returns: nothing, a value, or a value with its neighbours. -/
inductive Answer (K V : Type) where
  | done
  | value (val : V)
  | entry (val : V) (prev next : Option K)
  deriving DecidableEq, Repr

def exec : Call K V → IterableTable K V → Exec (Answer K V × IterableTable K V)
  | .add key val, table => do
      let table' ← add table key val
      return (.done, table')
  | .remove key, table => do
      let (val, table') ← remove table key
      return (.value val, table')
  | .removeIter key, table => do
      let ((val, prev, next), table') ← removeIter table key
      return (.entry val prev next, table')
  | .borrowMut key update, table => do
      let (val, table') ← borrowMut table key update
      return (.value val, table')
  | .borrowMutWithDefault key default update, table => do
      let (val, table') ← borrowMutWithDefault table key default update
      return (.value val, table')

/-- The keys met by following `next` from a key until there is none, if that takes at most `fuel`
steps and aborts nowhere. -/
def followNext (table : IterableTable K V) : ℕ → Option K → Option (List K)
  | _, none => some []
  | 0, some _ => none
  | fuel + 1, some key =>
      match borrowIter table key with
      | .ok (_, _, next) => (followNext table fuel next).map (key :: ·)
      | .error _ => none

/-- The keys met by following `prev`. -/
def followPrev (table : IterableTable K V) : ℕ → Option K → Option (List K)
  | _, none => some []
  | 0, some _ => none
  | fuel + 1, some key =>
      match borrowIter table key with
      | .ok (_, prev, _) => (followPrev table fuel prev).map (key :: ·)
      | .error _ => none

end MoveTutorial.Iterable
