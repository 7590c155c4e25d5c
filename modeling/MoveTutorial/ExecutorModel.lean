import MoveTutorial.BlockSerial
import MoveTutorial.SchedulerTasks

/-! The parallel executor. Threads that the scheduler gives tasks execute transactions on the multi-version
map, validate what was read, and mark the writes of aborted incarnations as estimates.

A thread takes one step per access to the map, to the recorded inputs and outputs, or to the recorded module
paths. The executor of the VM returns the same whenever its reads return the same. A thread that panics
stays where it is; the scope of the threads then returns nothing. -/

namespace MoveTutorial.Executor

open Results Interleaving

/-- A block of transactions, and what they are executed on. -/
structure Block (K V E P : Type) where
  bcs : Bcs
  numTxns : ℕ
  /-- what the VM does with a transaction -/
  program : TxnIndex → Program K (ExecutionStatus (TransactionOutput K V) E)
  storage : K → Option (List UInt8)
  /-- `module_path`: the path of the module that is stored under the key -/
  modulePath : K → Option P

/-- What an incarnation returned and read. -/
structure ExecuteResult (K V E : Type) where
  status : ExecutionStatus (TransactionOutput K V) E
  capturedReads : List (K × ReadKind)

/-- A module path that a transaction read or wrote. -/
inductive ModuleAccess (P : Type) where
  | read (path : P)
  | write (path : P)
  deriving DecidableEq

/-- What the threads share. -/
structure ExecutorState (K V E P : Type) where
  scheduler : Scheduler
  versionedDataCache : MVHashMap K V
  inputs : TxnIndex → Option (List (K × ReadKind))
  outputs : TxnIndex → Option (ExecutionStatus (TransactionOutput K V) E)
  moduleReads : Finset P
  moduleWrites : Finset P
  moduleReadWriteIntersection : Bool

/-- What a thread does with its task. -/
inductive Work (K V E P : Type) where
  /-- the thread has no task, or is inside the scheduler and will drop it -/
  | idle
  /-- `execute`: the VM runs -/
  | running (program : Program K (ExecutionStatus (TransactionOutput K V) E)) (capturedReads : List (K × ReadKind))
  /-- a read met an estimate -/
  | blocked (depTxnIdx : TxnIndex) (program : Program K (ExecutionStatus (TransactionOutput K V) E))
      (capturedReads : List (K × ReadKind))
  /-- the VM returned, before the last `modified_keys` are loaded -/
  | returned (result : ExecuteResult K V E)
  /-- `apply_updates` -/
  | applying (result : ExecuteResult K V E) (updates : List (K × Update V)) (prevModifiedKeys : Finset K)
      (updatesOutside : Bool)
  | deleting (result : ExecuteResult K V E) (prevModifiedKeys : Finset K) (updatesOutside : Bool)
  /-- `record`: before the flag is loaded -/
  | checkIntersection (result : ExecuteResult K V E) (updatesOutside : Bool)
  | appending (result : ExecuteResult K V E) (updatesOutside : Bool) (accesses : List (ModuleAccess P))
  | checking (result : ExecuteResult K V E) (updatesOutside : Bool) (access : ModuleAccess P)
      (accesses : List (ModuleAccess P))
  | raising (result : ExecuteResult K V E) (updatesOutside : Bool)
  | storeInput (result : ExecuteResult K V E) (updatesOutside : Bool)
  | storeOutput (result : ExecuteResult K V E) (updatesOutside : Bool)
  | finishing (updatesOutside : Bool)
  /-- `validate`: before the read set is loaded -/
  | loadReadSet
  | validating (readSet : List (K × ReadKind))
  | invalid
  /-- the version is aborted, before its `modified_keys` are loaded -/
  | loadModified
  | marking (keys : Finset K)
  /-- a delta was to be applied to bytes that are no integer -/
  | panicked
  /-- an assertion of the map failed, or a read set was not recorded -/
  | failed

section Functions

variable {K V E P : Type}

/-- The keys that a status writes, without those of its deltas. -/
def ExecutionStatus.writtenKeys (self : ExecutionStatus (TransactionOutput K V) E) : List K :=
  match self with
  | .success output => output.writes.map Prod.fst
  | .skipRest output => output.writes.map Prod.fst
  | .abort _ => []

/-- The module paths that `record` appends: those read, then those written. -/
def Block.moduleAccesses (block : Block K V E P) (result : ExecuteResult K V E) : List (ModuleAccess P) :=
  (result.capturedReads.filterMap fun read => block.modulePath read.1).map .read ++
    (result.status.writtenKeys.filterMap block.modulePath).map .write

variable [DecidableEq K]

/-- `modified_keys`: the keys written or updated in the last recorded execution. -/
def ExecutorState.modifiedKeys (self : ExecutorState K V E P) (txnIdx : TxnIndex) : Finset K :=
  match self.outputs txnIdx with
  | none => ∅
  | some status => status.modifiedKeys.toFinset

/-- `add_write` or `add_delta`. -/
def applyUpdate (cache : MVHashMap K V) (version : Version) (key : K) : Update V → VmResult (MVHashMap K V)
  | .write data => cache.addWrite key version data
  | .delta op => .ok (cache.addDelta key version.1 op)

def ExecutorState.setCache (self : ExecutorState K V E P) (cache : MVHashMap K V) : ExecutorState K V E P :=
  { self with versionedDataCache := cache }

variable [DecidableEq P]

/-- `set_to_append.insert`. -/
def ExecutorState.append (self : ExecutorState K V E P) (access : ModuleAccess P) : ExecutorState K V E P :=
  match access with
  | .read path => { self with moduleReads := insert path self.moduleReads }
  | .write path => { self with moduleWrites := insert path self.moduleWrites }

/-- `set_to_check.contains`. -/
def ExecutorState.clashes (self : ExecutorState K V E P) (access : ModuleAccess P) : Bool :=
  match access with
  | .read path => path ∈ self.moduleWrites
  | .write path => path ∈ self.moduleReads

end Functions

section Steps

variable {K V E P : Type} [DecidableEq K] [DecidableEq P] [TransactionWrite V]

/-- The steps of `execute`. -/
inductive ExecuteStep (block : Block K V E P) (version : Version) :
    ExecutorState K V E P → Work K V E P → ExecutorState K V E P → Work K V E P → Prop
  | read {self : ExecutorState K V E P} {key : K} {next} {capturedReads : List (K × ReadKind)}
      {outcome : ReadOutcome V} {kind : ReadKind}
      (h : self.versionedDataCache.read block.bcs key version.1 = .ok outcome)
      (hkind : ReadKind.ofOutcome outcome = some kind) :
      ExecuteStep block version self (.running (.read key next) capturedReads) self
        (.running (next (observe block.bcs (block.storage key) outcome)) (capturedReads ++ [(key, kind)]))
  -- the flags are read one after the other, so that an entry above this one may be marked in the meantime
  | dependency {self : ExecutorState K V E P} {key : K} {next} {capturedReads : List (K × ReadKind)}
      {depTxnIdx : TxnIndex} {tree : Tree V} {cell : EntryCell V} (hlt : depTxnIdx < version.1)
      (htree : self.versionedDataCache.data key = some tree) (h : tree depTxnIdx = some ⟨.estimate, cell⟩) :
      ExecuteStep block version self (.running (.read key next) capturedReads) self
        (.blocked depTxnIdx (.read key next) capturedReads)
  | readPanics {self : ExecutorState K V E P} {key : K} {next} {capturedReads : List (K × ReadKind)} {err : Failure}
      (h : self.versionedDataCache.read block.bcs key version.1 = .error err) :
      ExecuteStep block version self (.running (.read key next) capturedReads) self .panicked
  | return {self : ExecutorState K V E P} {status : ExecutionStatus (TransactionOutput K V) E}
      {capturedReads : List (K × ReadKind)} :
      ExecuteStep block version self (.running (.ret status) capturedReads) self (.returned ⟨status, capturedReads⟩)
  | loadModified {self : ExecutorState K V E P} {result : ExecuteResult K V E} :
      ExecuteStep block version self (.returned result) self
        (.applying result result.status.updates (self.modifiedKeys version.1) false)
  | apply {self : ExecutorState K V E P} {result : ExecuteResult K V E} {key : K} {update : Update V}
      {updates : List (K × Update V)} {prevModifiedKeys : Finset K} {updatesOutside : Bool} {cache : MVHashMap K V}
      (h : applyUpdate self.versionedDataCache version key update = .ok cache) :
      ExecuteStep block version self (.applying result ((key, update) :: updates) prevModifiedKeys updatesOutside)
        (self.setCache cache)
        (.applying result updates (prevModifiedKeys.erase key) (updatesOutside || decide (key ∉ prevModifiedKeys)))
  | applyFails {self : ExecutorState K V E P} {result : ExecuteResult K V E} {key : K} {update : Update V}
      {updates : List (K × Update V)} {prevModifiedKeys : Finset K} {updatesOutside : Bool} {err : Failure}
      (h : applyUpdate self.versionedDataCache version key update = .error err) :
      ExecuteStep block version self (.applying result ((key, update) :: updates) prevModifiedKeys updatesOutside) self
        .failed
  | applied {self : ExecutorState K V E P} {result : ExecuteResult K V E} {prevModifiedKeys : Finset K}
      {updatesOutside : Bool} :
      ExecuteStep block version self (.applying result [] prevModifiedKeys updatesOutside) self
        (.deleting result prevModifiedKeys updatesOutside)
  | delete {self : ExecutorState K V E P} {result : ExecuteResult K V E} {key : K} {prevModifiedKeys : Finset K}
      {updatesOutside : Bool} {cache : MVHashMap K V} (hmem : key ∈ prevModifiedKeys)
      (h : self.versionedDataCache.delete key version.1 = .ok cache) :
      ExecuteStep block version self (.deleting result prevModifiedKeys updatesOutside) (self.setCache cache)
        (.deleting result (prevModifiedKeys.erase key) updatesOutside)
  | deleteFails {self : ExecutorState K V E P} {result : ExecuteResult K V E} {key : K} {prevModifiedKeys : Finset K}
      {updatesOutside : Bool} {err : Failure} (hmem : key ∈ prevModifiedKeys)
      (h : self.versionedDataCache.delete key version.1 = .error err) :
      ExecuteStep block version self (.deleting result prevModifiedKeys updatesOutside) self .failed
  | deleted {self : ExecutorState K V E P} {result : ExecuteResult K V E} {updatesOutside : Bool} :
      ExecuteStep block version self (.deleting result ∅ updatesOutside) self (.checkIntersection result updatesOutside)
  -- record
  | intersected {self : ExecutorState K V E P} {result : ExecuteResult K V E} {updatesOutside : Bool}
      (h : self.moduleReadWriteIntersection = true) :
      ExecuteStep block version self (.checkIntersection result updatesOutside) self (.storeInput result updatesOutside)
  | notIntersected {self : ExecutorState K V E P} {result : ExecuteResult K V E} {updatesOutside : Bool}
      (h : self.moduleReadWriteIntersection = false) :
      ExecuteStep block version self (.checkIntersection result updatesOutside) self
        (.appending result updatesOutside (block.moduleAccesses result))
  | append {self : ExecutorState K V E P} {result : ExecuteResult K V E} {updatesOutside : Bool}
      {access : ModuleAccess P} {accesses : List (ModuleAccess P)} :
      ExecuteStep block version self (.appending result updatesOutside (access :: accesses)) (self.append access)
        (.checking result updatesOutside access accesses)
  | clash {self : ExecutorState K V E P} {result : ExecuteResult K V E} {updatesOutside : Bool}
      {access : ModuleAccess P} {accesses : List (ModuleAccess P)} (h : self.clashes access = true) :
      ExecuteStep block version self (.checking result updatesOutside access accesses) self
        (.raising result updatesOutside)
  | noClash {self : ExecutorState K V E P} {result : ExecuteResult K V E} {updatesOutside : Bool}
      {access : ModuleAccess P} {accesses : List (ModuleAccess P)} (h : self.clashes access = false) :
      ExecuteStep block version self (.checking result updatesOutside access accesses) self
        (.appending result updatesOutside accesses)
  | raise {self : ExecutorState K V E P} {result : ExecuteResult K V E} {updatesOutside : Bool} :
      ExecuteStep block version self (.raising result updatesOutside) { self with moduleReadWriteIntersection := true }
        (.storeInput result updatesOutside)
  | appended {self : ExecutorState K V E P} {result : ExecuteResult K V E} {updatesOutside : Bool} :
      ExecuteStep block version self (.appending result updatesOutside []) self (.storeInput result updatesOutside)
  | storeInput {self : ExecutorState K V E P} {result : ExecuteResult K V E} {updatesOutside : Bool} :
      ExecuteStep block version self (.storeInput result updatesOutside)
        { self with inputs := Function.update self.inputs version.1 (some result.capturedReads) }
        (.storeOutput result updatesOutside)
  | storeOutput {self : ExecutorState K V E P} {result : ExecuteResult K V E} {updatesOutside : Bool} :
      ExecuteStep block version self (.storeOutput result updatesOutside)
        { self with outputs := Function.update self.outputs version.1 (some result.status) } (.finishing updatesOutside)

/-- The steps of `validate` before the version is aborted. -/
inductive ValidateStep (block : Block K V E P) (version : Version) :
    ExecutorState K V E P → Work K V E P → ExecutorState K V E P → Work K V E P → Prop
  | loadReadSet {self : ExecutorState K V E P} {readSet : List (K × ReadKind)}
      (h : self.inputs version.1 = some readSet) :
      ValidateStep block version self .loadReadSet self (.validating readSet)
  | noReadSet {self : ExecutorState K V E P} (h : self.inputs version.1 = none) :
      ValidateStep block version self .loadReadSet self .failed
  | valid {self : ExecutorState K V E P} {descriptor : K × ReadKind} {readSet : List (K × ReadKind)}
      (h : validateRead block.bcs self.versionedDataCache version.1 descriptor = .ok true) :
      ValidateStep block version self (.validating (descriptor :: readSet)) self (.validating readSet)
  | invalid {self : ExecutorState K V E P} {descriptor : K × ReadKind} {readSet : List (K × ReadKind)}
      (h : validateRead block.bcs self.versionedDataCache version.1 descriptor = .ok false) :
      ValidateStep block version self (.validating (descriptor :: readSet)) self .invalid
  -- the flags are read one after the other
  | dependency {self : ExecutorState K V E P} {descriptor : K × ReadKind} {readSet : List (K × ReadKind)}
      {depTxnIdx : TxnIndex} {tree : Tree V} {cell : EntryCell V} (hlt : depTxnIdx < version.1)
      (htree : self.versionedDataCache.data descriptor.1 = some tree) (h : tree depTxnIdx = some ⟨.estimate, cell⟩) :
      ValidateStep block version self (.validating (descriptor :: readSet)) self .invalid
  | readPanics {self : ExecutorState K V E P} {descriptor : K × ReadKind} {readSet : List (K × ReadKind)}
      {err : Failure} (h : validateRead block.bcs self.versionedDataCache version.1 descriptor = .error err) :
      ValidateStep block version self (.validating (descriptor :: readSet)) self .panicked

/-- The steps of `validate` after the version is aborted. -/
inductive AbortStep (version : Version) :
    ExecutorState K V E P → Work K V E P → ExecutorState K V E P → Work K V E P → Prop
  | loadModified {self : ExecutorState K V E P} :
      AbortStep version self .loadModified self (.marking (self.modifiedKeys version.1))
  | mark {self : ExecutorState K V E P} {key : K} {keys : Finset K} {cache : MVHashMap K V} (hmem : key ∈ keys)
      (h : self.versionedDataCache.markEstimate key version.1 = .ok cache) :
      AbortStep version self (.marking keys) (self.setCache cache) (.marking (keys.erase key))
  | markFails {self : ExecutorState K V E P} {key : K} {keys : Finset K} {err : Failure} (hmem : key ∈ keys)
      (h : self.versionedDataCache.markEstimate key version.1 = .error err) :
      AbortStep version self (.marking keys) self .failed

/-- What a thread does when it calls the scheduler or gets something from it. -/
inductive React (block : Block K V E P) : Event → Work K V E P → Work K V E P → Prop
  | inside {work : Work K V E P} : React block .inside work work
  | executionTask {version : Version} :
      React block (.executionTask version) .idle (.running (block.program version.1) [])
  | validationTask {version : Version} : React block (.validationTask version) .idle .loadReadSet
  | waitForDependency {depTxnIdx : TxnIndex} {program : Program K (ExecutionStatus (TransactionOutput K V) E)}
      {capturedReads : List (K × ReadKind)} :
      React block (.waitForDependency depTxnIdx) (.blocked depTxnIdx program capturedReads)
        (.blocked depTxnIdx program capturedReads)
  | repeatRead {depTxnIdx : TxnIndex} {program : Program K (ExecutionStatus (TransactionOutput K V) E)}
      {capturedReads : List (K × ReadKind)} :
      React block .repeatRead (.blocked depTxnIdx program capturedReads) (.running program capturedReads)
  | finishExecution {updatesOutside : Bool} :
      React block (.finishExecution updatesOutside) (.finishing updatesOutside) .idle
  | validated : React block .validated (.validating []) .idle
  | aborted {version : Version} : React block (.tryAbort version true) .invalid .loadModified
  | notAborted {version : Version} : React block (.tryAbort version false) .invalid .idle
  | finishAbort : React block .finishAbort (.marking ∅) .idle

/-- One step of a thread: a step of the scheduler, or one of its task. -/
inductive ExecutorStep (block : Block K V E P) :
    ExecutorState K V E P → Pc × Work K V E P → Event → ExecutorState K V E P → Pc × Work K V E P → Prop
  | scheduler {self : ExecutorState K V E P} {scheduler : Scheduler} {p p' : Pc} {e : Event} {work work' : Work K V E P}
      (h : SchedulerStep self.scheduler p e scheduler p') (hreact : React block e work work') :
      ExecutorStep block self (p, work) e { self with scheduler := scheduler } (p', work')
  | execute {self self' : ExecutorState K V E P} {version : Version} {work work' : Work K V E P}
      (h : ExecuteStep block version self work self' work') :
      ExecutorStep block self (.executing version, work) .inside self' (.executing version, work')
  | validate {self self' : ExecutorState K V E P} {version : Version} {work work' : Work K V E P}
      (h : ValidateStep block version self work self' work') :
      ExecutorStep block self (.validating version, work) .inside self' (.validating version, work')
  | abort {self self' : ExecutorState K V E P} {version : Version} {work work' : Work K V E P}
      (h : AbortStep version self work self' work') :
      ExecutorStep block self (.aborting version, work) .inside self' (.aborting version, work')

/-- The threads at the beginning of the block. -/
def Block.start (Thread : Type) (block : Block K V E P) :
    Config Thread (ExecutorState K V E P) (Pc × Work K V E P) where
  shared :=
    { scheduler := .new block.numTxns
      versionedDataCache := .new
      inputs := fun _ => none
      outputs := fun _ => none
      moduleReads := ∅
      moduleWrites := ∅
      moduleReadWriteIntersection := false }
  pc _ := (.nextTask, .idle)

end Steps

/-! ### The results of a block -/

inductive ExecutorError (E : Type) where
  /-- a module that was read by a transaction was written by another one -/
  | modulePathReadWrite
  | userError (err : E)
  deriving DecidableEq

section Results

variable {K V E P : Type} [DecidableEq K]

/-- The output of a transaction after one that skips the rest. -/
def TransactionOutput.skipOutput : TransactionOutput K V := ⟨[], [], List.nodup_nil⟩

/-- `take_output` of all transactions; it panics if one is missing. -/
def ExecutorState.takeOutputs (self : ExecutorState K V E P) :
    ℕ → Option (List (ExecutionStatus (TransactionOutput K V) E))
  | 0 => some []
  | n + 1 => do
      let statuses ← takeOutputs self n
      let status ← self.outputs n
      return statuses ++ [status]

/-- What `execute_transactions_parallel` returns for the statuses. -/
def blockResults (numTxns : ℕ) (statuses : List (ExecutionStatus (TransactionOutput K V) E)) :
    Except (ExecutorError E) (List (TransactionOutput K V)) :=
  match finalResults statuses with
  | .error err => .error (.userError err)
  | .ok outputs => .ok (outputs ++ List.replicate (numTxns - outputs.length) .skipOutput)

/-- The end of `execute_transactions_parallel`, once all threads have finished. -/
def ExecutorState.results (self : ExecutorState K V E P) :
    Option (Except (ExecutorError E) (List (TransactionOutput K V))) :=
  if self.moduleReadWriteIntersection then some (.error .modulePathReadWrite)
  else (self.takeOutputs self.scheduler.numTxns).map (blockResults self.scheduler.numTxns)

end Results

/-! ### The block with its deltas materialized -/

section ExecuteBlock

variable {K E P : Type} [DecidableEq K]

/-- `resolve`: the writes that the deltas of the keys are materialized to, with the indices of the transactions. -/
def MVHashMap.resolve (self : MVHashMap K WriteOp) (bcs : Bcs) (storage : K → Option (List UInt8)) (blockSize : ℕ) :
    List K → VmResult (List (TxnIndex × K × WriteOp))
  | [] => .ok []
  | key :: keys =>
      match self.data key with
      | none => .error .panic
      | some tree => do
          let writes ← resolveKey bcs tree (.ok (storage key)) blockSize
          let ret ← resolve self bcs storage blockSize keys
          return writes.map (fun w => (w.1, key, w.2)) ++ ret

/-- The writes of one transaction. -/
def deltaWrites (ret : List (TxnIndex × K × WriteOp)) (idx : TxnIndex) : List (K × WriteOp) :=
  ret.filterMap fun w => if w.1 = idx then some w.2 else none

end ExecuteBlock

end MoveTutorial.Executor
