import MoveTutorial.MoveRun
import MoveTutorial.MoveStorage
import MoveTutorial.MoveVector

/-! The module `bucket_table`: a hash table by linear hashing, which splits one bucket at a time. The
hash function `sip_hash_from_value` is a parameter. Positions in a vector fit 64 bits, as its length
does, so the counters of loops over a vector are not checked. -/

namespace MoveTutorial

open Move

structure Entry (K V : Type) where
  hash : ℕ
  key : K
  value : V
  deriving DecidableEq, Repr

structure BucketTable (K V : Type) where
  buckets : TableWithLength ℕ (List (Entry K V))
  numBuckets : ℕ
  level : ℕ
  len : ℕ

namespace BucketTable

def targetLoadPerBucket : ℕ := 10

def splitThreshold : ℕ := 75

def enotFound : ℕ := 1

def ezeroCapacity : ℕ := 2

def enotEmpty : ℕ := 3

def ealreadyExist : ℕ := 4

variable {K V : Type}

def xor (a b : ℕ) : ℕ := a ^^^ b

def bucketIndex (level numBuckets hash : ℕ) : Exec ℕ := do
  let bits ← Move.add 8 level 1
  let size ← shl 64 1 bits
  let index ← mod hash size
  if index < numBuckets then
    return index
  else
    let half ← shl 64 1 level
    mod index half

/-! ### Splitting -/

/-- The first loop of `split_one_bucket`, for at most `fuel` rounds: an entry of the new bucket goes to
the upper part, where `j` starts. -/
def partitionLoop (level numBuckets newBucketIndex : ℕ) :
    ℕ → ℕ → ℕ → List (Entry K V) → Exec (ℕ × ℕ × List (Entry K V))
  | 0, i, j, oldBucket => return (i, j, oldBucket)
  | fuel + 1, i, j, oldBucket =>
      if i < j then do
        let entry ← Vec.borrow oldBucket i
        let index ← bucketIndex level numBuckets entry.hash
        if index = newBucketIndex then
          let j ← sub j 1
          let oldBucket ← Vec.swap oldBucket i j
          partitionLoop level numBuckets newBucketIndex fuel i j oldBucket
        else
          partitionLoop level numBuckets newBucketIndex fuel (i + 1) j oldBucket
      else
        return (i, j, oldBucket)

/-- The second loop of `split_one_bucket`: the upper part moves to the new bucket. -/
def moveLoop (j : ℕ) :
    ℕ → List (Entry K V) → List (Entry K V) → Exec (List (Entry K V) × List (Entry K V))
  | 0, oldBucket, newBucket => return (oldBucket, newBucket)
  | len + 1, oldBucket, newBucket =>
      if j < len + 1 then do
        let (entry, oldBucket) ← Vec.popBack oldBucket
        moveLoop j len oldBucket (newBucket ++ [entry])
      else
        return (oldBucket, newBucket)

/-- If the whole level is split once, bump the level. -/
def bumpLevel (level toSplit size : ℕ) : Exec ℕ := do
  let next ← Move.add 64 toSplit 1
  if next = size then Move.add 8 level 1 else return level

def splitOneBucket (map : BucketTable K V) : Exec (BucketTable K V) := do
  let newBucketIndex := map.numBuckets
  let size ← shl 64 1 map.level
  let toSplit := xor newBucketIndex size
  let numBuckets ← Move.add 64 newBucketIndex 1
  let level ← bumpLevel map.level toSplit size
  let oldBucket ← map.buckets.borrow toSplit
  let len := oldBucket.length
  let (_, j, oldBucket) ← partitionLoop level numBuckets newBucketIndex len 0 len oldBucket
  let (oldBucket, newBucket) ← moveLoop j len oldBucket []
  let buckets ← (map.buckets.write toSplit oldBucket).add newBucketIndex newBucket
  return { map with buckets, numBuckets, level }

def split (map : BucketTable K V) : ℕ → Exec (BucketTable K V)
  | 0 => return map
  | additionalBuckets + 1 => do
      let map ← splitOneBucket map
      split map additionalBuckets

/-! ### Operations -/

def new (initialBuckets : ℕ) : Exec (BucketTable K V) := do
  assert (initialBuckets > 0) (invalidArgument ezeroCapacity)
  let buckets ← TableWithLength.new.add 0 []
  let additionalBuckets ← sub initialBuckets 1
  split { buckets, numBuckets := 1, level := 0, len := 0 } additionalBuckets

/-- The loop of `destroy_empty` over the buckets from `i` on. -/
def destroyLoop : ℕ → ℕ → TableWithLength ℕ (List (Entry K V)) → Exec (TableWithLength ℕ (List (Entry K V)))
  | 0, _, buckets => return buckets
  | remaining + 1, i, buckets => do
      let (bucket, buckets) ← buckets.remove i
      Vec.destroyEmpty bucket
      destroyLoop remaining (i + 1) buckets

def destroyEmpty (map : BucketTable K V) : Exec Unit := do
  assert (map.len = 0) (invalidArgument enotEmpty)
  let buckets ← destroyLoop map.numBuckets 0 map.buckets
  buckets.destroyEmpty

def length (map : BucketTable K V) : ℕ := map.len

def loadFactor (map : BucketTable K V) : Exec ℕ := do
  let load ← mul 64 map.len 100
  let target ← mul 64 map.numBuckets targetLoadPerBucket
  div load target

section Keys

variable [DecidableEq K] (sipHash : K → ℕ)

/-- The loop of every lookup: the first position of the bucket that holds the key. -/
def position (bucket : List (Entry K V)) (key : K) : Option ℕ := bucket.findIdx? fun entry => entry.key = key

def add (map : BucketTable K V) (key : K) (value : V) : Exec (BucketTable K V) := do
  let hash := sipHash key
  let index ← bucketIndex map.level map.numBuckets hash
  let bucket ← map.buckets.borrow index
  assert (∀ entry ∈ bucket, entry.key ≠ key) (invalidArgument ealreadyExist)
  let len ← Move.add 64 map.len 1
  let map := { map with buckets := map.buckets.write index (bucket ++ [{ hash, key, value }]), len }
  let load ← loadFactor map
  if load > splitThreshold then splitOneBucket map else return map

def borrow (map : BucketTable K V) (key : K) : Exec V := do
  let index ← bucketIndex map.level map.numBuckets (sipHash key)
  let bucket ← map.buckets.borrow index
  match position bucket key with
  | some i => do
      let entry ← Vec.borrow bucket i
      return entry.value
  | none => .error (.code (invalidArgument enotFound))

/-- The value behind the reference, and the table after the caller's `update` of it. -/
def borrowMut (map : BucketTable K V) (key : K) (update : V → V) : Exec (V × BucketTable K V) := do
  let index ← bucketIndex map.level map.numBuckets (sipHash key)
  let bucket ← map.buckets.borrow index
  match position bucket key with
  | some i => do
      let entry ← Vec.borrow bucket i
      let bucket := bucket.set i { entry with value := update entry.value }
      return (entry.value, { map with buckets := map.buckets.write index bucket })
  | none => .error (.code (invalidArgument enotFound))

def contains (map : BucketTable K V) (key : K) : Exec Bool := do
  let index ← bucketIndex map.level map.numBuckets (sipHash key)
  let bucket ← map.buckets.borrow index
  return (position bucket key).isSome

def remove (map : BucketTable K V) (key : K) : Exec (V × BucketTable K V) := do
  let index ← bucketIndex map.level map.numBuckets (sipHash key)
  let bucket ← map.buckets.borrow index
  match position bucket key with
  | some i => do
      let (entry, bucket) ← Vec.swapRemove bucket i
      let len ← sub map.len 1
      return (entry.value, { map with buckets := map.buckets.write index bucket, len })
  | none => .error (.code (invalidArgument enotFound))

/-! ### Calls -/

inductive Call (K V : Type) where
  | add (key : K) (value : V)
  | remove (key : K)
  | borrow (key : K)
  | borrowMut (key : K) (update : V → V)
  | contains (key : K)
  | split (additionalBuckets : ℕ)

/-- What a call returns: nothing, a value, or whether the key is present. -/
inductive Answer (V : Type) where
  | done
  | value (value : V)
  | present (present : Bool)
  deriving DecidableEq, Repr

def exec : Call K V → BucketTable K V → Exec (Answer V × BucketTable K V)
  | .add key value, map => do
      let map' ← add sipHash map key value
      return (.done, map')
  | .remove key, map => do
      let (value, map') ← remove sipHash map key
      return (.value value, map')
  | .borrow key, map => do
      let value ← borrow sipHash map key
      return (.value value, map)
  | .borrowMut key update, map => do
      let (value, map') ← borrowMut sipHash map key update
      return (.value value, map')
  | .contains key, map => do
      let present ← contains sipHash map key
      return (.present present, map)
  | .split additionalBuckets, map => do
      let map' ← split map additionalBuckets
      return (.done, map')

end Keys

end BucketTable

end MoveTutorial
