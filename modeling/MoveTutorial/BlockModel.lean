import MoveTutorial.MultiVersionReads

/-! Blocks of transactions. The VM is a program that reads keys and in the end returns a status with what it
writes. The executor keeps, for the last incarnation of every transaction, what it read and what it
returned, and validates an incarnation by reading again. -/

namespace MoveTutorial.Executor

open Results

/-- What the VM does with a transaction. A read answers with what the state holds, or with an error. -/
inductive Program (K Out : Type) where
  | ret (out : Out)
  | read (key : K) (next : VmResult (Option (List UInt8)) → Program K Out)

/-- What a transaction wrote under a key. -/
inductive Update (V : Type) where
  | write (data : V)
  | delta (op : DeltaOp)
  deriving DecidableEq, Repr

/-- The writes and the deltas of a transaction. -/
structure TransactionOutput (K V : Type) where
  writes : List (K × V)
  deltas : List (K × DeltaOp)
  /-- the keys of a write set and of a delta change set, which share none -/
  nodup : (writes.map Prod.fst ++ deltas.map Prod.fst).Nodup

inductive ExecutionStatus (T E : Type) where
  | success (output : T)
  /-- halts the execution of the block with an error -/
  | abort (err : E)
  /-- skips the execution of the trailing transactions -/
  | skipRest (output : T)

section Outputs

variable {K V E : Type} [DecidableEq K]

/-- The updates of an output: first the writes, then the deltas. -/
def TransactionOutput.updates (self : TransactionOutput K V) : List (K × Update V) :=
  self.writes.map (fun w => (w.1, .write w.2)) ++ self.deltas.map fun d => (d.1, .delta d.2)

/-- The updates of a status. A transaction that aborts the block has none. -/
def ExecutionStatus.updates (self : ExecutionStatus (TransactionOutput K V) E) : List (K × Update V) :=
  match self with
  | .success output => output.updates
  | .skipRest output => output.updates
  | .abort _ => []

/-- `modified_keys`. -/
def ExecutionStatus.modifiedKeys (self : ExecutionStatus (TransactionOutput K V) E) : List K :=
  self.updates.map Prod.fst

def ExecutionStatus.update? (self : ExecutionStatus (TransactionOutput K V) E) (key : K) : Option (Update V) :=
  self.updates.lookup key

def EntryCell.update (cell : EntryCell V) : Update V :=
  match cell with
  | .write _ data => .write data
  | .delta op => .delta op

/-- The final results of a block: the outputs up to the first transaction that skips the rest, or the error of
the first that aborts. -/
def finalResults : List (ExecutionStatus (TransactionOutput K V) E) → Except E (List (TransactionOutput K V))
  | [] => .ok []
  | .success output :: statuses => do
      let outputs ← finalResults statuses
      return output :: outputs
  | .skipRest output :: _ => .ok [output]
  | .abort err :: _ => .error err

end Outputs

/-! ### Read sets -/

/-- Information about a read that is used by validation. -/
inductive ReadKind where
  | version (idx : TxnIndex) (incarnation : Incarnation)
  | resolved (value : ℕ)
  | unresolved (delta : DeltaOp)
  | storage
  | deltaApplicationFailure
  deriving DecidableEq, Repr

section Validation

variable {K V : Type} [TransactionWrite V]

/-- The kind of read that is captured for an outcome; a dependency is not captured. -/
def ReadKind.ofOutcome (outcome : ReadOutcome V) : Option ReadKind :=
  match outcome with
  | .ok (.version (idx, incarnation) _) => some (.version idx incarnation)
  | .ok (.resolved value) => some (.resolved value)
  | .error .notFound => some .storage
  | .error (.unresolved delta) => some (.unresolved delta)
  | .error .deltaApplicationFailure => some .deltaApplicationFailure
  | .error (.dependency _) => none

/-- One read of the validation; a dependency implies a failure. -/
def validateRead (bcs : Bcs) (versionedDataCache : MVHashMap K V) (idxToValidate : TxnIndex)
    (descriptor : K × ReadKind) : VmResult Bool := do
  let outcome ← versionedDataCache.read bcs descriptor.1 idxToValidate
  return decide (ReadKind.ofOutcome outcome = some descriptor.2)

end Validation

/-! ### Sequential execution -/

section Sequential

variable {K V E Out : Type}

/-- The program with the whole state at hand. -/
def Program.eval (state : K → Option (List UInt8)) : Program K Out → Out
  | .ret out => out
  | .read key next => (next (.ok (state key))).eval state

variable [TransactionWrite V]

/-- An update made to what the state holds. -/
def Update.make (bcs : Bcs) (update : Option (Update V)) (entry : Option (List UInt8)) :
    VmResult (Option (List UInt8)) :=
  match update with
  | none => .ok entry
  | some (.write data) => .ok (TransactionWrite.extractRawBytes data)
  | some (.delta op) => applyDelta bcs op entry

end Sequential

/-! ### Sequential execution of a block -/

section Block

variable {K E : Type}

/-- What a transaction writes under the keys. -/
abbrev WriteSet (K : Type) := K → Option WriteOp

/-- `push_write_set`. -/
def pushWriteSet (dataCache : K → Option (List UInt8)) (writeSet : WriteSet K) : K → Option (List UInt8) := fun key =>
  match writeSet key with
  | none => dataCache key
  | some op => TransactionWrite.extractRawBytes op

variable [DecidableEq K]

/-- Materializes the deltas with what the state holds. -/
def tryIntoWriteSetMut (bcs : Bcs) (state : K → Option (List UInt8)) : List (K × DeltaOp) → VmResult (List (K × WriteOp))
  | [] => .ok []
  | (key, op) :: deltas => do
      let writeOp ← op.tryIntoWriteOp bcs (.ok (state key))
      let deltaWrites ← tryIntoWriteSetMut bcs state deltas
      return (key, writeOp) :: deltaWrites

namespace TransactionOutput

/-- The writes and those of the deltas, which are under other keys. -/
def mergeDeltaWrites (self : TransactionOutput K WriteOp) (deltaWrites : List (K × WriteOp)) : WriteSet K := fun key =>
  (self.writes ++ deltaWrites).lookup key

/-- The output with its deltas applied. Panics if one of them cannot be. -/
def intoTransactionOutput (self : TransactionOutput K WriteOp) (bcs : Bcs) (state : K → Option (List UInt8)) :
    VmResult (WriteSet K) :=
  if self.deltas.isEmpty then .ok fun key => self.writes.lookup key
  else
    match tryIntoWriteSetMut bcs state self.deltas with
    | .ok materializedDeltas => .ok (self.mergeDeltaWrites materializedDeltas)
    | .error _ => .error .panic

/-- The output with the writes that its deltas were materialized to. -/
def outputWithDeltaWrites (self : TransactionOutput K WriteOp) (deltaWrites : List (K × WriteOp)) :
    VmResult (WriteSet K) :=
  if self.deltas.isEmpty then .ok fun key => self.writes.lookup key
  -- a delta write for every delta in the output
  else if self.deltas.length ≠ deltaWrites.length then .error .panic
  else .ok (self.mergeDeltaWrites deltaWrites)

end TransactionOutput

/-- The variables of the loop of `execute_block_impl`. -/
structure BlockLoop (K : Type) where
  dataCache : K → Option (List UInt8)
  result : List (WriteSet K)
  shouldRestart : Bool

/-- One round of the loop. -/
def BlockLoop.round (self : BlockLoop K) (bcs : Bcs)
    (program : Program K (ExecutionStatus (TransactionOutput K WriteOp) E)) : VmResult (Except E (BlockLoop K)) :=
  -- retried after the reconfiguration
  if self.shouldRestart then .ok (.ok { self with result := self.result ++ [fun _ => none] })
  else
    match program.eval self.dataCache with
    | .abort err => .ok (.error err)
    | .success output => do
        let writeSet ← output.intoTransactionOutput bcs self.dataCache
        return .ok ⟨pushWriteSet self.dataCache writeSet, self.result ++ [writeSet], false⟩
    | .skipRest output => do
        let writeSet ← output.intoTransactionOutput bcs self.dataCache
        return .ok ⟨pushWriteSet self.dataCache writeSet, self.result ++ [writeSet], true⟩

end Block

end MoveTutorial.Executor
