import MoveTutorial.Interleaving
import MoveTutorial.MultiVersion

/-! The scheduler of the parallel executor. Threads ask it for transactions to execute and to validate; two
shared indices go over the block, and go back whenever something has to be done again.

A thread takes one step per access to what the threads share: a load or a change of an atomic counter, or
what it does while it holds the mutex of one status. The mutex of a dependency list is held across several
steps. Loads and stores are sequentially consistent, and counters do not wrap. -/

namespace MoveTutorial.Executor

/-- The identity of an `Arc<(Mutex<bool>, Condvar)>`. -/
abbrev DependencyCondvar := ℕ

inductive TransactionStatus where
  | readyToExecute (incarnation : Incarnation) (condvar : Option DependencyCondvar)
  | executing (incarnation : Incarnation)
  | suspended (incarnation : Incarnation) (condvar : DependencyCondvar)
  | executed (incarnation : Incarnation)
  | aborting (incarnation : Incarnation)
  deriving DecidableEq, Repr

/-- The status is `ReadyToExecute`. -/
def TransactionStatus.Ready : TransactionStatus → Prop
  | .readyToExecute _ _ => True
  | _ => False

/-- The status is `Executed`. -/
def TransactionStatus.Executed : TransactionStatus → Prop
  | .executed _ => True
  | _ => False

theorem TransactionStatus.Executed.incarnation {status : TransactionStatus} (h : status.Executed) :
    ∃ incarnation, status = .executed incarnation := by
  cases status with
  | executed incarnation => exact ⟨incarnation, rfl⟩
  | _ => cases h

structure Scheduler where
  /-- number of transactions to execute -/
  numTxns : ℕ
  /-- the minimum of all transactions that require execution -/
  executionIdx : ℕ
  /-- the minimum of all transactions that require validation -/
  validationIdx : ℕ
  /-- how often the two indices were decreased -/
  decreaseCnt : ℕ
  /-- the number of task guards -/
  numActiveTasks : ℕ
  doneMarker : Bool
  /-- the transactions that depend on a transaction -/
  txnDependency : TxnIndex → List TxnIndex
  /-- whether the mutex of the list is held -/
  dependencyLock : TxnIndex → Bool
  txnStatus : TxnIndex → TransactionStatus
  /-- the number of condition variables created so far -/
  condvars : ℕ
  /-- whether the flag of a condition variable is set -/
  resolved : DependencyCondvar → Bool

namespace Scheduler

def new (numTxns : ℕ) : Scheduler where
  numTxns := numTxns
  executionIdx := 0
  validationIdx := 0
  decreaseCnt := 0
  numActiveTasks := 0
  doneMarker := false
  txnDependency _ := []
  dependencyLock _ := false
  txnStatus _ := .readyToExecute 0 none
  condvars := 0
  resolved _ := false

def setStatus (self : Scheduler) (txnIdx : TxnIndex) (status : TransactionStatus) : Scheduler :=
  { self with txnStatus := Function.update self.txnStatus txnIdx status }

@[simp] theorem setStatus_self (self : Scheduler) (txnIdx : TxnIndex) (status : TransactionStatus) :
    (self.setStatus txnIdx status).txnStatus txnIdx = status :=
  Function.update_self ..

theorem setStatus_of_ne (self : Scheduler) {txnIdx i : TxnIndex} (h : i ≠ txnIdx) (status : TransactionStatus) :
    (self.setStatus txnIdx status).txnStatus i = self.txnStatus i :=
  Function.update_of_ne h _ _

def setLock (self : Scheduler) (txnIdx : TxnIndex) (held : Bool) : Scheduler :=
  { self with dependencyLock := Function.update self.dependencyLock txnIdx held }

def setDependency (self : Scheduler) (txnIdx : TxnIndex) (storedDeps : List TxnIndex) : Scheduler :=
  { self with txnDependency := Function.update self.txnDependency txnIdx storedDeps }

/-- What `try_incarnate` returns; if it succeeds, the status becomes `Executing`. -/
def tryIncarnate (self : Scheduler) (txnIdx : TxnIndex) : Option (Incarnation × Option DependencyCondvar) :=
  if txnIdx ≥ self.numTxns then none
  else
    match self.txnStatus txnIdx with
    | .readyToExecute incarnation condvar => some (incarnation, condvar)
    | _ => none

def isExecuted (self : Scheduler) (txnIdx : TxnIndex) : Option Incarnation :=
  if txnIdx ≥ self.numTxns then none
  else
    match self.txnStatus txnIdx with
    | .executed incarnation => some incarnation
    | _ => none

variable {self : Scheduler} {txnIdx : TxnIndex} {incarnation : Incarnation} {condvar : Option DependencyCondvar}

theorem tryIncarnate_eq_some : self.tryIncarnate txnIdx = some (incarnation, condvar) ↔
    txnIdx < self.numTxns ∧ self.txnStatus txnIdx = .readyToExecute incarnation condvar := by
  unfold tryIncarnate
  split
  · next h => simp [Nat.not_lt.mpr h]
  · next h =>
      split
      · next hstatus =>
          rw [hstatus]
          simp [Nat.not_le.mp h]
      · next hne => exact iff_of_false nofun fun ⟨_, hready⟩ => hne _ _ hready

theorem tryIncarnate_eq_none : self.tryIncarnate txnIdx = none ↔
    self.numTxns ≤ txnIdx ∨ ¬(self.txnStatus txnIdx).Ready := by
  unfold tryIncarnate
  split
  · next h => simp [h]
  · next h =>
      cases hstatus : self.txnStatus txnIdx with
      | readyToExecute incarnation condvar => simp [h, TransactionStatus.Ready]
      | _ => exact iff_of_true rfl (Or.inr id)

theorem isExecuted_eq_some : self.isExecuted txnIdx = some incarnation ↔
    txnIdx < self.numTxns ∧ self.txnStatus txnIdx = .executed incarnation := by
  unfold isExecuted
  split
  · next h => simp [Nat.not_lt.mpr h]
  · next h =>
      split
      · next hstatus =>
          rw [hstatus]
          simp [Nat.not_le.mp h]
      · next hne => exact iff_of_false nofun fun ⟨_, hexecuted⟩ => hne _ hexecuted

theorem isExecuted_eq_none : self.isExecuted txnIdx = none ↔
    self.numTxns ≤ txnIdx ∨ ¬(self.txnStatus txnIdx).Executed := by
  unfold isExecuted
  split
  · next h => simp [h]
  · next h =>
      cases hstatus : self.txnStatus txnIdx with
      | executed incarnation => simp [h, TransactionStatus.Executed]
      | _ => exact iff_of_true rfl (Or.inr id)

end Scheduler

/-- Where a thread is in the functions of the scheduler, or which task it has. -/
inductive Pc where
  /-- `next_task`: at the head of the loop, before `done` -/
  | nextTask
  | loadValidationIdx
  | loadExecutionIdx (idxToValidate : ℕ)
  /-- `try_validate_next_version`: before the first load -/
  | tryValidate
  | guardValidate
  | claimValidate
  | isExecuted (idxToValidate : TxnIndex)
  /-- `try_execute_next_version`: before the first load -/
  | tryExecute
  | guardExecute
  | claimExecute
  | tryIncarnate (idxToExecute : TxnIndex)
  /-- `check_done`: before the first load -/
  | checkDone
  | checkValidation (observedCnt : ℕ)
  | checkExecution (observedCnt valIdx : ℕ)
  | checkTasks (observedCnt valIdx execIdx : ℕ)
  | recheck (observedCnt : ℕ)
  | setDone
  /-- the guard of a task goes out of scope, and the thread asks for the next task -/
  | dropGuard
  /-- the thread has a `ValidationTask` -/
  | validating (version : Version)
  /-- the validation failed and `try_abort` succeeded -/
  | aborting (version : Version)
  /-- the thread has an `ExecutionTask` without a condition variable -/
  | executing (version : Version)
  /-- the thread has an `ExecutionTask` with a condition variable -/
  | notifying (condvar : DependencyCondvar)
  /-- `wait_for_dependency`: before the mutex of the list is acquired -/
  | lockDependency (version : Version) (depTxnIdx : TxnIndex)
  | checkDependency (version : Version) (depTxnIdx : TxnIndex)
  | suspending (version : Version) (depTxnIdx : TxnIndex)
  | pushing (version : Version) (depTxnIdx : TxnIndex) (condvar : DependencyCondvar)
  /-- in `read`, on the condition variable -/
  | waiting (version : Version) (condvar : DependencyCondvar)
  /-- `finish_execution`: before `set_executed_status` -/
  | setExecuted (version : Version) (revalidateSuffix : Bool)
  | takeDependencies (version : Version) (revalidateSuffix : Bool)
  /-- the dependencies that are not resumed yet, and the minimum of those that are -/
  | resuming (version : Version) (revalidateSuffix : Bool) (txnDeps : List TxnIndex) (minDep : Option TxnIndex)
  | decreaseExecution (version : Version) (revalidateSuffix : Bool) (targetIdx : TxnIndex)
  | countExecution (version : Version) (revalidateSuffix : Bool)
  | checkRevalidate (version : Version) (revalidateSuffix : Bool)
  | decreaseValidation (targetIdx : TxnIndex)
  | countValidation
  /-- `finish_abort`: before `set_aborted_status` -/
  | setAborted (version : Version)
  | decreaseSuffix (txnIdx : TxnIndex)
  | countSuffix (txnIdx : TxnIndex)
  | checkReexecute (txnIdx : TxnIndex)
  | reincarnate (txnIdx : TxnIndex)
  /-- `SchedulerTask::Done` -/
  | finished
  /-- an assertion failed -/
  | failed
  deriving DecidableEq, Repr

/-- What passes between the scheduler and the thread that works for it. -/
inductive Event where
  /-- a step inside the scheduler -/
  | inside
  /-- the scheduler returns a task -/
  | executionTask (version : Version)
  | validationTask (version : Version)
  /-- a read met the estimate of another transaction -/
  | waitForDependency (depTxnIdx : TxnIndex)
  /-- the read is repeated -/
  | repeatRead
  | finishExecution (revalidateSuffix : Bool)
  /-- the validation ends without an abort -/
  | validated
  /-- the validation failed, and this is what `try_abort` returned -/
  | tryAbort (version : Version) (aborted : Bool)
  | finishAbort
  deriving DecidableEq, Repr

/-- One step of a thread. The functions that change a status (`try_abort`, `suspend`, `resume`,
`set_executed_status`, `set_aborted_status`) are one step each; where the source asserts the status before,
or calls the other case unreachable, the step fails in that case. While it has a task, the thread does what it likes until it calls the scheduler. -/
inductive SchedulerStep : Scheduler → Pc → Event → Scheduler → Pc → Prop
  -- next_task
  | done {self : Scheduler} (h : self.doneMarker = true) : SchedulerStep self .nextTask .inside self .finished
  | notDone {self : Scheduler} (h : self.doneMarker = false) :
      SchedulerStep self .nextTask .inside self .loadValidationIdx
  | loadValidationIdx {self : Scheduler} :
      SchedulerStep self .loadValidationIdx .inside self (.loadExecutionIdx self.validationIdx)
  | preferValidation {self : Scheduler} {idxToValidate : ℕ} (h : idxToValidate < self.executionIdx) :
      SchedulerStep self (.loadExecutionIdx idxToValidate) .inside self .tryValidate
  | preferExecution {self : Scheduler} {idxToValidate : ℕ} (h : ¬idxToValidate < self.executionIdx) :
      SchedulerStep self (.loadExecutionIdx idxToValidate) .inside self .tryExecute
  -- try_validate_next_version
  | noneToValidate {self : Scheduler} (h : self.validationIdx ≥ self.numTxns) :
      SchedulerStep self .tryValidate .inside self .checkDone
  | someToValidate {self : Scheduler} (h : ¬self.validationIdx ≥ self.numTxns) :
      SchedulerStep self .tryValidate .inside self .guardValidate
  | guardValidate {self : Scheduler} :
      SchedulerStep self .guardValidate .inside { self with numActiveTasks := self.numActiveTasks + 1 } .claimValidate
  | claimValidate {self : Scheduler} :
      SchedulerStep self .claimValidate .inside { self with validationIdx := self.validationIdx + 1 }
        (.isExecuted self.validationIdx)
  | validationTask {self : Scheduler} {idxToValidate : TxnIndex} {incarnation : Incarnation}
      (h : self.isExecuted idxToValidate = some incarnation) :
      SchedulerStep self (.isExecuted idxToValidate) (.validationTask (idxToValidate, incarnation)) self
        (.validating (idxToValidate, incarnation))
  | noValidationTask {self : Scheduler} {idxToValidate : TxnIndex} (h : self.isExecuted idxToValidate = none) :
      SchedulerStep self (.isExecuted idxToValidate) .inside self .dropGuard
  -- try_execute_next_version
  | noneToExecute {self : Scheduler} (h : self.executionIdx ≥ self.numTxns) :
      SchedulerStep self .tryExecute .inside self .checkDone
  | someToExecute {self : Scheduler} (h : ¬self.executionIdx ≥ self.numTxns) :
      SchedulerStep self .tryExecute .inside self .guardExecute
  | guardExecute {self : Scheduler} :
      SchedulerStep self .guardExecute .inside { self with numActiveTasks := self.numActiveTasks + 1 } .claimExecute
  | claimExecute {self : Scheduler} :
      SchedulerStep self .claimExecute .inside { self with executionIdx := self.executionIdx + 1 }
        (.tryIncarnate self.executionIdx)
  | executionTask {self : Scheduler} {idxToExecute : TxnIndex} {incarnation : Incarnation}
      (h : self.tryIncarnate idxToExecute = some (incarnation, none)) :
      SchedulerStep self (.tryIncarnate idxToExecute) (.executionTask (idxToExecute, incarnation))
        (self.setStatus idxToExecute (.executing incarnation)) (.executing (idxToExecute, incarnation))
  | wakeTask {self : Scheduler} {idxToExecute : TxnIndex} {incarnation : Incarnation}
      {condvar : DependencyCondvar} (h : self.tryIncarnate idxToExecute = some (incarnation, some condvar)) :
      SchedulerStep self (.tryIncarnate idxToExecute) .inside
        (self.setStatus idxToExecute (.executing incarnation)) (.notifying condvar)
  | noExecutionTask {self : Scheduler} {idxToExecute : TxnIndex} (h : self.tryIncarnate idxToExecute = none) :
      SchedulerStep self (.tryIncarnate idxToExecute) .inside self .dropGuard
  -- check_done
  | checkDone {self : Scheduler} : SchedulerStep self .checkDone .inside self (.checkValidation self.decreaseCnt)
  | checkValidation {self : Scheduler} {observedCnt : ℕ} :
      SchedulerStep self (.checkValidation observedCnt) .inside self (.checkExecution observedCnt self.validationIdx)
  | checkExecution {self : Scheduler} {observedCnt valIdx : ℕ} :
      SchedulerStep self (.checkExecution observedCnt valIdx) .inside self
        (.checkTasks observedCnt valIdx self.executionIdx)
  | workRemaining {self : Scheduler} {observedCnt valIdx execIdx : ℕ}
      (h : min execIdx valIdx < self.numTxns ∨ self.numActiveTasks > 0) :
      SchedulerStep self (.checkTasks observedCnt valIdx execIdx) .inside self .nextTask
  | noWorkRemaining {self : Scheduler} {observedCnt valIdx execIdx : ℕ}
      (h : ¬(min execIdx valIdx < self.numTxns ∨ self.numActiveTasks > 0)) :
      SchedulerStep self (.checkTasks observedCnt valIdx execIdx) .inside self (.recheck observedCnt)
  | unchanged {self : Scheduler} {observedCnt : ℕ} (h : observedCnt = self.decreaseCnt) :
      SchedulerStep self (.recheck observedCnt) .inside self .setDone
  | changed {self : Scheduler} {observedCnt : ℕ} (h : observedCnt ≠ self.decreaseCnt) :
      SchedulerStep self (.recheck observedCnt) .inside self .nextTask
  | setDone {self : Scheduler} : SchedulerStep self .setDone .inside { self with doneMarker := true } .nextTask
  -- the guard of a task
  | dropGuard {self : Scheduler} (h : self.numActiveTasks > 0) :
      SchedulerStep self .dropGuard .inside { self with numActiveTasks := self.numActiveTasks - 1 } .nextTask
  | dropGuardFails {self : Scheduler} (h : ¬self.numActiveTasks > 0) :
      SchedulerStep self .dropGuard .inside self .failed
  -- a validation task
  | validated {self : Scheduler} {version : Version} : SchedulerStep self (.validating version) .validated self .dropGuard
  | aborted {self : Scheduler} {version : Version} (h : self.txnStatus version.1 = .executed version.2) :
      SchedulerStep self (.validating version) (.tryAbort version true)
        (self.setStatus version.1 (.aborting version.2)) (.aborting version)
  | notAborted {self : Scheduler} {version : Version} (h : self.txnStatus version.1 ≠ .executed version.2) :
      SchedulerStep self (.validating version) (.tryAbort version false) self .dropGuard
  | finishAbort {self : Scheduler} {version : Version} :
      SchedulerStep self (.aborting version) .finishAbort self (.setAborted version)
  -- an execution task
  -- a transaction reads only what lower transactions wrote
  | waitForDependency {self : Scheduler} {version : Version} {depTxnIdx : TxnIndex} (h : depTxnIdx < version.1) :
      SchedulerStep self (.executing version) (.waitForDependency depTxnIdx) self (.lockDependency version depTxnIdx)
  | finishExecution {self : Scheduler} {version : Version} (revalidateSuffix : Bool) :
      SchedulerStep self (.executing version) (.finishExecution revalidateSuffix) self
        (.setExecuted version revalidateSuffix)
  | notify {self : Scheduler} {condvar : DependencyCondvar} :
      SchedulerStep self (.notifying condvar) .inside
        { self with resolved := Function.update self.resolved condvar true } .dropGuard
  -- wait_for_dependency
  | lockDependency {self : Scheduler} {version : Version} {depTxnIdx : TxnIndex}
      (h : self.dependencyLock depTxnIdx = false) :
      SchedulerStep self (.lockDependency version depTxnIdx) .inside (self.setLock depTxnIdx true)
        (.checkDependency version depTxnIdx)
  | dependencyResolved {self : Scheduler} {version : Version} {depTxnIdx : TxnIndex} {incarnation : Incarnation}
      (h : self.isExecuted depTxnIdx = some incarnation) :
      SchedulerStep self (.checkDependency version depTxnIdx) .repeatRead (self.setLock depTxnIdx false)
        (.executing version)
  | dependencyOpen {self : Scheduler} {version : Version} {depTxnIdx : TxnIndex}
      (h : self.isExecuted depTxnIdx = none) :
      SchedulerStep self (.checkDependency version depTxnIdx) .inside self (.suspending version depTxnIdx)
  | suspend {self : Scheduler} {version : Version} {depTxnIdx : TxnIndex} {incarnation : Incarnation}
      (h : self.txnStatus version.1 = .executing incarnation) :
      SchedulerStep self (.suspending version depTxnIdx) .inside
        { self.setStatus version.1 (.suspended incarnation self.condvars) with condvars := self.condvars + 1 }
        (.pushing version depTxnIdx self.condvars)
  | suspendFails {self : Scheduler} {version : Version} {depTxnIdx : TxnIndex}
      (h : ∀ incarnation, self.txnStatus version.1 ≠ .executing incarnation) :
      SchedulerStep self (.suspending version depTxnIdx) .inside self .failed
  | push {self : Scheduler} {version : Version} {depTxnIdx : TxnIndex} {condvar : DependencyCondvar} :
      SchedulerStep self (.pushing version depTxnIdx condvar) .inside
        ((self.setDependency depTxnIdx (self.txnDependency depTxnIdx ++ [version.1])).setLock depTxnIdx false)
        (.waiting version condvar)
  | wake {self : Scheduler} {version : Version} {condvar : DependencyCondvar} (h : self.resolved condvar = true) :
      SchedulerStep self (.waiting version condvar) .repeatRead self (.executing version)
  -- finish_execution
  | setExecuted {self : Scheduler} {version : Version} {revalidateSuffix : Bool}
      (h : self.txnStatus version.1 = .executing version.2) :
      SchedulerStep self (.setExecuted version revalidateSuffix) .inside
        (self.setStatus version.1 (.executed version.2)) (.takeDependencies version revalidateSuffix)
  | setExecutedFails {self : Scheduler} {version : Version} {revalidateSuffix : Bool}
      (h : self.txnStatus version.1 ≠ .executing version.2) :
      SchedulerStep self (.setExecuted version revalidateSuffix) .inside self .failed
  | takeDependencies {self : Scheduler} {version : Version} {revalidateSuffix : Bool}
      (h : self.dependencyLock version.1 = false) :
      SchedulerStep self (.takeDependencies version revalidateSuffix) .inside (self.setDependency version.1 [])
        (.resuming version revalidateSuffix (self.txnDependency version.1) none)
  | resume {self : Scheduler} {version : Version} {revalidateSuffix : Bool} {dep : TxnIndex}
      {txnDeps : List TxnIndex} {minDep : Option TxnIndex} {incarnation : Incarnation} {condvar : DependencyCondvar}
      (h : self.txnStatus dep = .suspended incarnation condvar) :
      SchedulerStep self (.resuming version revalidateSuffix (dep :: txnDeps) minDep) .inside
        (self.setStatus dep (.readyToExecute incarnation (some condvar)))
        (.resuming version revalidateSuffix txnDeps (some (minDep.elim dep (min dep))))
  | resumeFails {self : Scheduler} {version : Version} {revalidateSuffix : Bool} {dep : TxnIndex}
      {txnDeps : List TxnIndex} {minDep : Option TxnIndex}
      (h : ∀ incarnation condvar, self.txnStatus dep ≠ .suspended incarnation condvar) :
      SchedulerStep self (.resuming version revalidateSuffix (dep :: txnDeps) minDep) .inside self .failed
  | noDependencies {self : Scheduler} {version : Version} {revalidateSuffix : Bool} :
      SchedulerStep self (.resuming version revalidateSuffix [] none) .inside self
        (.checkRevalidate version revalidateSuffix)
  | someDependencies {self : Scheduler} {version : Version} {revalidateSuffix : Bool} {executionTargetIdx : TxnIndex} :
      SchedulerStep self (.resuming version revalidateSuffix [] (some executionTargetIdx)) .inside self
        (.decreaseExecution version revalidateSuffix executionTargetIdx)
  | decreaseExecution {self : Scheduler} {version : Version} {revalidateSuffix : Bool} {targetIdx : TxnIndex}
      (h : self.executionIdx > targetIdx) :
      SchedulerStep self (.decreaseExecution version revalidateSuffix targetIdx) .inside
        { self with executionIdx := targetIdx } (.countExecution version revalidateSuffix)
  | keepExecution {self : Scheduler} {version : Version} {revalidateSuffix : Bool} {targetIdx : TxnIndex}
      (h : ¬self.executionIdx > targetIdx) :
      SchedulerStep self (.decreaseExecution version revalidateSuffix targetIdx) .inside self
        (.checkRevalidate version revalidateSuffix)
  | countExecution {self : Scheduler} {version : Version} {revalidateSuffix : Bool} :
      SchedulerStep self (.countExecution version revalidateSuffix) .inside
        { self with decreaseCnt := self.decreaseCnt + 1 } (.checkRevalidate version revalidateSuffix)
  | alreadyLower {self : Scheduler} {version : Version} {revalidateSuffix : Bool}
      (h : ¬self.validationIdx > version.1) :
      SchedulerStep self (.checkRevalidate version revalidateSuffix) .inside self .dropGuard
  | revalidateSuffix {self : Scheduler} {version : Version} (h : self.validationIdx > version.1) :
      SchedulerStep self (.checkRevalidate version true) .inside self (.decreaseValidation version.1)
  | revalidateSelf {self : Scheduler} {version : Version} (h : self.validationIdx > version.1) :
      SchedulerStep self (.checkRevalidate version false) (.validationTask version) self (.validating version)
  | decreaseValidation {self : Scheduler} {targetIdx : TxnIndex} (h : self.validationIdx > targetIdx) :
      SchedulerStep self (.decreaseValidation targetIdx) .inside { self with validationIdx := targetIdx } .countValidation
  | keepValidation {self : Scheduler} {targetIdx : TxnIndex} (h : ¬self.validationIdx > targetIdx) :
      SchedulerStep self (.decreaseValidation targetIdx) .inside self .dropGuard
  | countValidation {self : Scheduler} :
      SchedulerStep self .countValidation .inside { self with decreaseCnt := self.decreaseCnt + 1 } .dropGuard
  -- finish_abort
  | setAborted {self : Scheduler} {version : Version} (h : self.txnStatus version.1 = .aborting version.2) :
      SchedulerStep self (.setAborted version) .inside
        (self.setStatus version.1 (.readyToExecute (version.2 + 1) none)) (.decreaseSuffix version.1)
  | setAbortedFails {self : Scheduler} {version : Version} (h : self.txnStatus version.1 ≠ .aborting version.2) :
      SchedulerStep self (.setAborted version) .inside self .failed
  | decreaseSuffix {self : Scheduler} {txnIdx : TxnIndex} (h : self.validationIdx > txnIdx + 1) :
      SchedulerStep self (.decreaseSuffix txnIdx) .inside { self with validationIdx := txnIdx + 1 } (.countSuffix txnIdx)
  | keepSuffix {self : Scheduler} {txnIdx : TxnIndex} (h : ¬self.validationIdx > txnIdx + 1) :
      SchedulerStep self (.decreaseSuffix txnIdx) .inside self (.checkReexecute txnIdx)
  | countSuffix {self : Scheduler} {txnIdx : TxnIndex} :
      SchedulerStep self (.countSuffix txnIdx) .inside { self with decreaseCnt := self.decreaseCnt + 1 }
        (.checkReexecute txnIdx)
  | reexecute {self : Scheduler} {txnIdx : TxnIndex} (h : self.executionIdx > txnIdx) :
      SchedulerStep self (.checkReexecute txnIdx) .inside self (.reincarnate txnIdx)
  | executedLater {self : Scheduler} {txnIdx : TxnIndex} (h : ¬self.executionIdx > txnIdx) :
      SchedulerStep self (.checkReexecute txnIdx) .inside self .dropGuard
  | reincarnated {self : Scheduler} {txnIdx : TxnIndex} {newIncarnation : Incarnation}
      (h : self.tryIncarnate txnIdx = some (newIncarnation, none)) :
      SchedulerStep self (.reincarnate txnIdx) (.executionTask (txnIdx, newIncarnation))
        (self.setStatus txnIdx (.executing newIncarnation)) (.executing (txnIdx, newIncarnation))
  | reincarnatedWake {self : Scheduler} {txnIdx : TxnIndex} {newIncarnation : Incarnation}
      {condvar : DependencyCondvar} (h : self.tryIncarnate txnIdx = some (newIncarnation, some condvar)) :
      SchedulerStep self (.reincarnate txnIdx) .inside (self.setStatus txnIdx (.executing newIncarnation))
        (.notifying condvar)
  | notReincarnated {self : Scheduler} {txnIdx : TxnIndex} (h : self.tryIncarnate txnIdx = none) :
      SchedulerStep self (.reincarnate txnIdx) .inside self .dropGuard

/-- The threads at the beginning of a block. -/
def Scheduler.start (Thread : Type) (numTxns : ℕ) : Interleaving.Config Thread Scheduler Pc where
  shared := .new numTxns
  pc _ := .nextTask

end MoveTutorial.Executor
