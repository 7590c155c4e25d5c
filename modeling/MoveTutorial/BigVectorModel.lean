import MoveTutorial.MoveRun
import MoveTutorial.MoveStorage
import MoveTutorial.MoveVector

/-! The module `big_vector`: a vector kept in buckets of `bucketSize` elements in a table. What a
caller does with a mutable reference to an element is an update function. -/

namespace MoveTutorial

open Move

/-- Index of the value in the buckets. -/
structure BigVectorIndex where
  bucketIndex : ℕ
  vecIndex : ℕ
  deriving DecidableEq, Repr

structure BigVector (T : Type) where
  buckets : TableWithLength ℕ (List T)
  endIndex : BigVectorIndex
  numBuckets : ℕ
  bucketSize : ℕ

namespace BigVector

def eindexOutOfBounds : ℕ := 1

def eoutOfCapacity : ℕ := 2

def evectorNotEmpty : ℕ := 3

variable {T : Type}

/-- One more empty bucket, as `push_back` and `reserve` add it. -/
def addBucket (v : BigVector T) : Exec (BigVector T) := do
  let buckets ← v.buckets.add v.numBuckets []
  let numBuckets ← add 64 v.numBuckets 1
  return { v with buckets, numBuckets }

def reserve (v : BigVector T) : ℕ → Exec (BigVector T)
  | 0 => return v
  | additionalBuckets + 1 => do
      let v ← addBucket v
      reserve v additionalBuckets

def new (bucketSize : ℕ) : Exec (BigVector T) := do
  assert (bucketSize > 0) 0
  return { buckets := .new, endIndex := ⟨0, 0⟩, numBuckets := 0, bucketSize }

def newWithCapacity (bucketSize numBuckets : ℕ) : Exec (BigVector T) := do
  let v ← new bucketSize
  reserve v numBuckets

def length (v : BigVector T) : Exec ℕ := do
  let full ← mul 64 v.endIndex.bucketIndex v.bucketSize
  add 64 full v.endIndex.vecIndex

def isEmpty (v : BigVector T) : Exec Bool := do
  let len ← length v
  return len = 0

def incrementIndex (index : BigVectorIndex) (bucketSize : ℕ) : Exec BigVectorIndex := do
  let next ← add 64 index.vecIndex 1
  if next = bucketSize then
    let bucketIndex ← add 64 index.bucketIndex 1
    return { bucketIndex, vecIndex := 0 }
  else
    return { index with vecIndex := next }

def decrementIndex (index : BigVectorIndex) (bucketSize : ℕ) : Exec BigVectorIndex :=
  if index.vecIndex = 0 then do
    assert (index.bucketIndex > 0) eindexOutOfBounds
    let bucketIndex ← sub index.bucketIndex 1
    let vecIndex ← sub bucketSize 1
    return { bucketIndex, vecIndex }
  else do
    let vecIndex ← sub index.vecIndex 1
    return { index with vecIndex }

/-- The element goes to the bucket of the end index, as in both pushes. -/
def append (v : BigVector T) (val : T) : Exec (BigVector T) := do
  let bucket ← v.buckets.borrow v.endIndex.bucketIndex
  let endIndex ← incrementIndex v.endIndex v.bucketSize
  return { v with buckets := v.buckets.write v.endIndex.bucketIndex (bucket ++ [val]), endIndex }

def pushBack (v : BigVector T) (val : T) : Exec (BigVector T) := do
  let v ← if v.endIndex.bucketIndex = v.numBuckets then addBucket v else pure v
  append v val

def pushBackNoGrow (v : BigVector T) (val : T) : Exec (BigVector T) := do
  assert (v.endIndex.bucketIndex < v.numBuckets) (invalidArgument eoutOfCapacity)
  append v val

def popBack (v : BigVector T) : Exec (T × BigVector T) := do
  let empty ← isEmpty v
  assert (empty = false) (invalidArgument eindexOutOfBounds)
  let endIndex ← decrementIndex v.endIndex v.bucketSize
  let bucket ← v.buckets.borrow endIndex.bucketIndex
  let (val, bucket) ← Vec.popBack bucket
  return (val, { v with buckets := v.buckets.write endIndex.bucketIndex bucket, endIndex })

def borrow (v : BigVector T) (index : BigVectorIndex) : Exec T := do
  let bucket ← v.buckets.borrow index.bucketIndex
  Vec.borrow bucket index.vecIndex

/-- The element behind the reference, and the vector after the caller's `update` of it. -/
def borrowMut (v : BigVector T) (index : BigVectorIndex) (update : T → T) : Exec (T × BigVector T) := do
  let bucket ← v.buckets.borrow index.bucketIndex
  let val ← Vec.borrow bucket index.vecIndex
  let bucket := bucket.set index.vecIndex (update val)
  return (val, { v with buckets := v.buckets.write index.bucketIndex bucket })

def swapRemove (v : BigVector T) (index : BigVectorIndex) : Exec (T × BigVector T) := do
  let (lastVal, v) ← popBack v
  if v.endIndex.bucketIndex = index.bucketIndex ∧ v.endIndex.vecIndex = index.vecIndex then
    return (lastVal, v)
  else
    let bucket ← v.buckets.borrow index.bucketIndex
    let bucketLen := bucket.length
    let (val, bucket) ← Vec.swapRemove bucket index.vecIndex
    let bucket := bucket ++ [lastVal]
    let last ← sub bucketLen 1
    let bucket ← Vec.swap bucket index.vecIndex last
    return (val, { v with buckets := v.buckets.write index.bucketIndex bucket })

def bucketsRequired (endIndex : BigVectorIndex) : Exec ℕ :=
  add 64 endIndex.bucketIndex (if endIndex.vecIndex = 0 then 0 else 1)

/-- The loop of `shrink_to_fit` over the number of buckets. -/
def shrinkLoop (endIndex : BigVectorIndex) :
    ℕ → TableWithLength ℕ (List T) → Exec (ℕ × TableWithLength ℕ (List T))
  | 0, buckets => do
      let _ ← bucketsRequired endIndex
      return (0, buckets)
  | numBuckets + 1, buckets => do
      let required ← bucketsRequired endIndex
      if numBuckets + 1 > required then
        let (bucket, buckets) ← buckets.remove numBuckets
        Vec.destroyEmpty bucket
        shrinkLoop endIndex numBuckets buckets
      else
        return (numBuckets + 1, buckets)

def shrinkToFit (v : BigVector T) : Exec (BigVector T) := do
  let (numBuckets, buckets) ← shrinkLoop v.endIndex v.numBuckets v.buckets
  return { v with buckets, numBuckets }

/-- The table is returned as it is when it is destroyed. -/
def destroyEmpty (v : BigVector T) : Exec (TableWithLength ℕ (List T)) := do
  let empty ← isEmpty v
  assert (empty = true) (invalidArgument evectorNotEmpty)
  let v ← shrinkToFit v
  v.buckets.destroyEmpty
  return v.buckets

def bucketIndex (v : BigVector T) (i : ℕ) : Exec BigVectorIndex := do
  let len ← length v
  assert (i < len) eindexOutOfBounds
  let bucketIndex ← div i v.bucketSize
  let vecIndex ← mod i v.bucketSize
  return { bucketIndex, vecIndex }

/-- The loop of `index_of` from position `i`, with `remaining` positions to go. -/
def indexOfLoop [DecidableEq T] (v : BigVector T) (val : T) : ℕ → ℕ → BigVectorIndex → Exec (Bool × ℕ)
  | 0, _, _ => return (false, 0)
  | remaining + 1, i, index => do
      let val' ← borrow v index
      if val' = val then
        return (true, i)
      else
        let i ← add 64 i 1
        let index ← incrementIndex index v.bucketSize
        indexOfLoop v val remaining i index

def indexOf [DecidableEq T] (v : BigVector T) (val : T) : Exec (Bool × ℕ) := do
  let len ← length v
  let index ← bucketIndex v 0
  indexOfLoop v val len 0 index

def contains [DecidableEq T] (v : BigVector T) (val : T) : Exec Bool := do
  let empty ← isEmpty v
  if empty then
    return false
  else
    let (exist, _) ← indexOf v val
    return exist

/-! ### Calls -/

inductive Call (T : Type) where
  | pushBack (val : T)
  | pushBackNoGrow (val : T)
  | popBack
  | borrowMut (index : BigVectorIndex) (update : T → T)
  | swapRemove (index : BigVectorIndex)
  | reserve (additionalBuckets : ℕ)
  | shrinkToFit

/-- What a call returns: nothing, or an element. -/
inductive Answer (T : Type) where
  | done
  | value (val : T)
  deriving DecidableEq, Repr

def exec : Call T → BigVector T → Exec (Answer T × BigVector T)
  | .pushBack val, v => do
      let v' ← pushBack v val
      return (.done, v')
  | .pushBackNoGrow val, v => do
      let v' ← pushBackNoGrow v val
      return (.done, v')
  | .popBack, v => do
      let (val, v') ← popBack v
      return (.value val, v')
  | .borrowMut index update, v => do
      let (val, v') ← borrowMut v index update
      return (.value val, v')
  | .swapRemove index, v => do
      let (val, v') ← swapRemove v index
      return (.value val, v')
  | .reserve additionalBuckets, v => do
      let v' ← reserve v additionalBuckets
      return (.done, v')
  | .shrinkToFit, v => do
      let v' ← shrinkToFit v
      return (.done, v')

end BigVector

end MoveTutorial
