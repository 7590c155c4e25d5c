import MoveTutorial.ChangeSquash

/-! The multi-version map of the parallel executor. For every key it holds what each transaction wrote, by
the index of the transaction in the block. A transaction reads what the transactions before it wrote:
from its index downwards, merging deltas, until it comes to a write. -/

namespace MoveTutorial.Executor

open Results

abbrev TxnIndex := ℕ

abbrev Incarnation := ℕ

abbrev Version := TxnIndex × Incarnation

/-- Values that transactions write; `none` for a deletion. -/
class TransactionWrite (V : Type) where
  extractRawBytes : V → Option (List UInt8)

open TransactionWrite

instance writeOpTransactionWrite : TransactionWrite WriteOp where
  extractRawBytes
    | .creation data => some data
    | .modification data => some data
    | .deletion => none

/-- `AggregatorValue::from_write`: `none` if the write is a deletion. -/
def fromWrite {V : Type} [TransactionWrite V] (bcs : Bcs) (write : V) : VmResult (Option ℕ) :=
  match extractRawBytes write with
  | none => .ok none
  | some bytes => do
      let value ← deserialize bcs bytes
      return some value

/-- `FLAG_DONE` and `FLAG_ESTIMATE`. -/
inductive Flag where
  | done
  | estimate
  deriving DecidableEq, Repr

inductive EntryCell (V : Type) where
  | write (incarnation : Incarnation) (data : V)
  | delta (delta : DeltaOp)
  deriving DecidableEq, Repr

structure Entry (V : Type) where
  flag : Flag
  cell : EntryCell V
  deriving DecidableEq, Repr

/-- The entries of a key by the index of the transaction. -/
abbrev Tree (V : Type) := TxnIndex → Option (Entry V)

/-- `tree.range(0..txn_idx)` from its back. -/
def Tree.descending {V : Type} (tree : Tree V) : TxnIndex → List (TxnIndex × Entry V)
  | 0 => []
  | n + 1 =>
      match tree n with
      | some entry => (n, entry) :: descending tree n
      | none => descending tree n

/-- `tree.range(0..txn_idx)` from its front. -/
def Tree.ascending {V : Type} (tree : Tree V) (n : TxnIndex) : List (TxnIndex × Entry V) := (tree.descending n).reverse

structure MVHashMap (K V : Type) where
  data : K → Option (Tree V)

inductive MVHashMapError where
  /-- no prior entry is found -/
  | notFound
  /-- the read resulted in an unresolved delta -/
  | unresolved (delta : DeltaOp)
  /-- a dependency on another transaction has been found -/
  | dependency (idx : TxnIndex)
  /-- delta application failed -/
  | deltaApplicationFailure
  deriving DecidableEq, Repr

inductive MVHashMapOutput (V : Type) where
  /-- result of a resolved delta -/
  | resolved (value : ℕ)
  /-- the last write, with its version -/
  | version (version : Version) (data : V)
  deriving DecidableEq, Repr

abbrev ReadOutcome (V : Type) := Except MVHashMapError (MVHashMapOutput V)

namespace MVHashMap

variable {K V : Type} [DecidableEq K]

def new : MVHashMap K V := ⟨fun _ => none⟩

def setEntry (self : MVHashMap K V) (key : K) (idx : TxnIndex) (entry : Entry V) : MVHashMap K V :=
  let tree := (self.data key).getD fun _ => none
  ⟨Function.update self.data key (some (Function.update tree idx (some entry)))⟩

/-- Adds a write, and asserts that the incarnation is higher than that of the write it replaces. -/
def addWrite (self : MVHashMap K V) (key : K) (version : Version) (data : V) : VmResult (MVHashMap K V) :=
  let next := self.setEntry key version.1 ⟨.done, .write version.2 data⟩
  match (self.data key).bind fun tree => tree version.1 with
  | some ⟨_, .write incarnation _⟩ => if incarnation < version.2 then .ok next else .error .panic
  | _ => .ok next

def addDelta (self : MVHashMap K V) (key : K) (idx : TxnIndex) (delta : DeltaOp) : MVHashMap K V :=
  self.setEntry key idx ⟨.done, .delta delta⟩

/-- Panics if the entry is not in the data structure. -/
def markEstimate (self : MVHashMap K V) (key : K) (idx : TxnIndex) : VmResult (MVHashMap K V) :=
  match (self.data key).bind fun tree => tree idx with
  | some entry => .ok (self.setEntry key idx { entry with flag := .estimate })
  | none => .error .panic

/-- Panics if the key has never been written before. -/
def delete (self : MVHashMap K V) (key : K) (idx : TxnIndex) : VmResult (MVHashMap K V) :=
  match self.data key with
  | some tree => .ok ⟨Function.update self.data key (some (Function.update tree idx none))⟩
  | none => .error .panic

variable [TransactionWrite V]

/-- The loop of `read` over the entries below the reader, the highest first. -/
def readLoop (bcs : Bcs) : List (TxnIndex × Entry V) → Option DeltaOp → VmResult (ReadOutcome V)
  | [], none => .ok (.error .notFound)
  | [], some accumulator => .ok (.error (.unresolved accumulator))
  | (idx, ⟨.estimate, _⟩) :: _, _ => .ok (.error (.dependency idx))
  | (idx, ⟨.done, .write incarnation data⟩) :: _, none => .ok (.ok (.version (idx, incarnation) data))
  | (idx, ⟨.done, .write incarnation data⟩) :: _, some accumulator => do
      match ← fromWrite bcs data with
      -- the write was a deletion, and the VM will observe the deletion
      | none => return .ok (.version (idx, incarnation) data)
      | some value =>
          match accumulator.applyTo value with
          | .ok result => return .ok (.resolved result)
          | .error _ => return .error .deltaApplicationFailure
  | (_, ⟨.done, .delta delta⟩) :: entries, none => readLoop bcs entries (some delta)
  | (_, ⟨.done, .delta delta⟩) :: entries, some accumulator =>
      match accumulator.mergeOnto delta with
      | .ok merged => readLoop bcs entries (some merged)
      | .error _ => .ok (.error .deltaApplicationFailure)

def read (self : MVHashMap K V) (bcs : Bcs) (key : K) (txnIdx : TxnIndex) : VmResult (ReadOutcome V) :=
  match self.data key with
  | some tree => readLoop bcs (tree.descending txnIdx) none
  | none => .ok (.error .notFound)

end MVHashMap

/-! ### The deltas of a block -/

section Resolver

variable {K V : Type} [DecidableEq K] [TransactionWrite V] (bcs : Bcs)

/-- The inner loop of `resolve` over the entries of a key, the lowest first: the writes that the deltas
materialize to, and the latest value. -/
def resolveLoop : Option ℕ → List (TxnIndex × Entry V) → VmResult (List (TxnIndex × WriteOp) × Option ℕ)
  | latestValue, [] => .ok ([], latestValue)
  | _, (_, ⟨_, .write _ data⟩) :: entries => do
      let latestValue ← fromWrite bcs data
      resolveLoop latestValue entries
  | none, (_, ⟨_, .delta _⟩) :: _ => .error .panic
  | some latestValue, (idx, ⟨_, .delta delta⟩) :: entries =>
      match delta.applyTo latestValue with
      | .error _ => .error .panic
      | .ok aggregatorValue => do
          let (writes, last) ← resolveLoop (some aggregatorValue) entries
          return ((idx, .modification (serialize bcs aggregatorValue)) :: writes, last)

/-- `storage_val.ok().map(|value| value.map(|bytes| deserialize(&bytes)))`, flattened. -/
def storageValue (storageVal : Except Unit (Option (List UInt8))) : VmResult (Option ℕ) :=
  match storageVal with
  | .ok (some bytes) => do
      let value ← deserialize bcs bytes
      return some value
  | .ok none => .ok none
  | .error _ => .ok none

/-- The materialized deltas of one key. -/
def resolveKey (tree : Tree V) (storageVal : Except Unit (Option (List UInt8))) (blockSize : ℕ) :
    VmResult (List (TxnIndex × WriteOp)) := do
  let latestValue ← storageValue bcs storageVal
  let (writes, _) ← resolveLoop bcs latestValue (tree.ascending blockSize)
  return writes

end Resolver

end MoveTutorial.Executor
