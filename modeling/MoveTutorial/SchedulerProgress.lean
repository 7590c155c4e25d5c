import MoveTutorial.SchedulerDone

/-! No dependency is forgotten, and the threads never wait for each other forever: in every reachable
configuration some thread can take a step, until all of them have finished. -/

namespace MoveTutorial.Executor

open Interleaving

namespace Pc

/-- The dependency list whose mutex the thread holds. -/
def locks : Pc → Option TxnIndex
  | .checkDependency _ depTxnIdx => some depTxnIdx
  | .suspending _ depTxnIdx => some depTxnIdx
  | .pushing _ depTxnIdx _ => some depTxnIdx
  | _ => none

/-- The thread is about to record a dependency on the transaction. -/
def Records : Pc → TxnIndex → Prop
  | .suspending _ depTxnIdx, j => depTxnIdx = j
  | .pushing _ depTxnIdx _, j => depTxnIdx = j
  | _, _ => False

/-- The thread is about to take the dependencies on the transaction. -/
def Takes : Pc → TxnIndex → Prop
  | .takeDependencies version _, j => version.1 = j
  | _, _ => False

/-- The dependency of the thread is lower than its transaction. -/
def Lower : Pc → Prop
  | .lockDependency version depTxnIdx => depTxnIdx < version.1
  | .checkDependency version depTxnIdx => depTxnIdx < version.1
  | .suspending version depTxnIdx => depTxnIdx < version.1
  | .pushing version depTxnIdx _ => depTxnIdx < version.1
  | _ => True

/-- The transaction that the thread executes, or is about to. -/
def executes : Pc → Option TxnIndex
  | .tryIncarnate idxToExecute => some idxToExecute
  | .reincarnate txnIdx => some txnIdx
  | .executing version => some version.1
  | .lockDependency version _ => some version.1
  | .checkDependency version _ => some version.1
  | .suspending version _ => some version.1
  | .pushing version _ _ => some version.1
  | .waiting version _ => some version.1
  | _ => none

/-- The thread has no transaction to execute that `execution_idx` will come to again. -/
def Ahead (p : Pc) (executionIdx : TxnIndex) : Prop := ∀ i, p.executes = some i → i < executionIdx

end Pc

section Steps

variable {self self' : Scheduler} {p p' : Pc} {e : Event} {i j : TxnIndex}

/-- What a step does to the mutexes of the dependency lists. -/
theorem SchedulerStep.locks (h : SchedulerStep self p e self' p') (hp' : p' ≠ .failed) :
    (p'.locks = p.locks ∧ self'.dependencyLock = self.dependencyLock) ∨
      (∃ j, p.locks = none ∧ p'.locks = some j ∧ self.dependencyLock j = false ∧
        self'.dependencyLock = Function.update self.dependencyLock j true) ∨
      ∃ j, p.locks = some j ∧ p'.locks = none ∧ self'.dependencyLock = Function.update self.dependencyLock j false := by
  cases h with
  | lockDependency h => exact Or.inr (Or.inl ⟨_, rfl, rfl, h, rfl⟩)
  | dependencyResolved => exact Or.inr (Or.inr ⟨_, rfl, rfl, rfl⟩)
  | push => exact Or.inr (Or.inr ⟨_, rfl, rfl, rfl⟩)
  | suspendFails => exact absurd rfl hp'
  | _ => exact Or.inl ⟨rfl, rfl⟩

/-- A status that is executed was executed before, or its thread is about to take the dependencies. -/
theorem SchedulerStep.executed (h : SchedulerStep self p e self' p') (hexecuted : (self'.txnStatus i).Executed) :
    (self.txnStatus i).Executed ∨ p'.Takes i := by
  have hset : ∀ {j : TxnIndex} {status : TransactionStatus}, ¬status.Executed →
      ((self.setStatus j status).txnStatus i).Executed → (self.txnStatus i).Executed := by
    intro j status hne hstatus
    by_cases hij : i = j
    · rw [hij, Scheduler.setStatus_self] at hstatus
      exact absurd hstatus hne
    · rwa [Scheduler.setStatus_of_ne _ hij] at hstatus
  cases h with
  | executionTask => exact Or.inl (hset id hexecuted)
  | wakeTask => exact Or.inl (hset id hexecuted)
  | aborted => exact Or.inl (hset id hexecuted)
  | suspend => exact Or.inl (hset id hexecuted)
  | resume => exact Or.inl (hset id hexecuted)
  | setAborted => exact Or.inl (hset id hexecuted)
  | reincarnated => exact Or.inl (hset id hexecuted)
  | reincarnatedWake => exact Or.inl (hset id hexecuted)
  | @setExecuted version _ _ =>
      by_cases hi : i = version.1
      · exact Or.inr hi.symm
      · rw [Scheduler.setStatus_of_ne _ hi] at hexecuted
        exact Or.inl hexecuted
  | _ => exact Or.inl hexecuted

theorem setDependency_of_ne (h : i ≠ j) (storedDeps : List TxnIndex) :
    (self.setDependency j storedDeps).txnDependency i = self.txnDependency i :=
  Function.update_of_ne h _ _

/-- Dependencies are recorded on what is not executed. -/
theorem SchedulerStep.records (h : SchedulerStep self p e self' p') (hrecords : p'.Records j) :
    p.Records j ∨ self.numTxns ≤ j ∨ ¬(self'.txnStatus j).Executed := by
  cases h with
  | dependencyOpen h =>
      obtain rfl := hrecords
      exact Or.inr (Scheduler.isExecuted_eq_none.mp h)
  | suspend => exact Or.inl hrecords
  | _ => cases hrecords

/-- A list is filled by a thread that records a dependency. -/
theorem SchedulerStep.dependency (h : SchedulerStep self p e self' p') (hne : self'.txnDependency j ≠ []) :
    p.Records j ∨ self.txnDependency j ≠ [] := by
  cases h with
  | @push version depTxnIdx condvar =>
      by_cases hj : j = depTxnIdx
      · exact Or.inl hj.symm
      · exact Or.inr fun heq => hne ((setDependency_of_ne hj _).trans heq)
  | @takeDependencies version _ _ =>
      by_cases hj : j = version.1
      · subst hj
        exact absurd (Function.update_self ..) hne
      · exact Or.inr fun heq => hne ((setDependency_of_ne hj _).trans heq)
  | _ => exact Or.inr hne

/-- A thread that was about to take the dependencies has taken them, from a list whose mutex was free. -/
theorem SchedulerStep.takes (h : SchedulerStep self p e self' p') (htakes : p.Takes j) :
    self'.txnDependency j = [] ∧ self.dependencyLock j = false ∧ self'.dependencyLock = self.dependencyLock := by
  cases h with
  | takeDependencies h =>
      obtain rfl := htakes
      exact ⟨Function.update_self .., h, rfl⟩
  | _ => cases htakes

theorem SchedulerStep.lower (h : SchedulerStep self p e self' p') (hlower : p.Lower) : p'.Lower := by
  cases h with
  | waitForDependency h => exact h
  | lockDependency => exact hlower
  | dependencyOpen => exact hlower
  | suspend => exact hlower
  | _ => trivial

theorem SchedulerStep.listsLower (h : SchedulerStep self p e self' p') (hlower : p.Lower)
    (hlists : ∀ j, ∀ d ∈ self.txnDependency j, j < d) : ∀ j, ∀ d ∈ self'.txnDependency j, j < d := by
  cases h with
  | @push version depTxnIdx condvar =>
      intro j d hd
      by_cases hj : j = depTxnIdx
      · subst hj
        rw [show ((self.setDependency j (self.txnDependency j ++ [version.1])).setLock j false).txnDependency j =
          self.txnDependency j ++ [version.1] from Function.update_self .., List.mem_append, List.mem_singleton] at hd
        rcases hd with hd | rfl
        · exact hlists j d hd
        · exact hlower
      · exact hlists j d ((setDependency_of_ne hj _) ▸ hd)
  | @takeDependencies version _ _ =>
      intro j d hd
      by_cases hj : j = version.1
      · subst hj
        rw [show (self.setDependency version.1 []).txnDependency version.1 = [] from Function.update_self ..] at hd
        cases hd
      · exact hlists j d ((setDependency_of_ne hj _) ▸ hd)
  | _ => exact hlists

/-- The transactions beyond the block are never touched. -/
theorem SchedulerStep.untouched (h : SchedulerStep self p e self' p') (hi : self.numTxns ≤ i)
    (hready : self.txnStatus i = .readyToExecute 0 none) : self'.txnStatus i = .readyToExecute 0 none := by
  have hset : ∀ {j : TxnIndex} (status : TransactionStatus), self.txnStatus j ≠ .readyToExecute 0 none →
      (self.setStatus j status).txnStatus i = .readyToExecute 0 none := by
    intro j status hne
    have hij : i ≠ j := fun hij => hne (hij ▸ hready)
    rw [Scheduler.setStatus_of_ne _ hij]
    exact hready
  have hincarnate : ∀ {j : TxnIndex} {incarnation : Incarnation} {condvar : Option DependencyCondvar}
      (status : TransactionStatus), self.tryIncarnate j = some (incarnation, condvar) →
        (self.setStatus j status).txnStatus i = .readyToExecute 0 none := by
    intro j incarnation condvar status hsome
    have hlt := (Scheduler.tryIncarnate_eq_some.mp hsome).1
    rw [Scheduler.setStatus_of_ne _ (hlt.trans_le hi).ne']
    exact hready
  cases h with
  | executionTask h => exact hincarnate _ h
  | wakeTask h => exact hincarnate _ h
  | reincarnated h => exact hincarnate _ h
  | reincarnatedWake h => exact hincarnate _ h
  | aborted h => exact hset _ (by rw [h]; exact nofun)
  | suspend h => exact hset _ (by rw [h]; exact nofun)
  | setExecuted h => exact hset _ (by rw [h]; exact nofun)
  | resume h => exact hset _ (by rw [h]; exact nofun)
  | setAborted h => exact hset _ (by rw [h]; exact nofun)
  | _ => exact hready

/-- A thread that is ahead of `execution_idx` stays so, and one that decreases it executes nothing. -/
theorem SchedulerStep.ahead (h : SchedulerStep self p e self' p') (hahead : p.Ahead self.executionIdx) :
    p'.Ahead self'.executionIdx := by
  cases h with
  | claimExecute =>
      intro i hi
      obtain rfl := Option.some.inj hi
      exact Nat.lt_succ_self _
  | executionTask => exact hahead
  | reincarnated => exact hahead
  | waitForDependency => exact hahead
  | lockDependency => exact hahead
  | dependencyResolved => exact hahead
  | dependencyOpen => exact hahead
  | suspend => exact hahead
  | push => exact hahead
  | wake => exact hahead
  | reexecute h =>
      intro i hi
      obtain rfl := Option.some.inj hi
      exact h
  | _ => exact nofun

theorem SchedulerStep.ahead_of_lt (h : SchedulerStep self p e self' p') (hlt : self'.executionIdx < self.executionIdx) :
    p'.Ahead self'.executionIdx := by
  cases h with
  | decreaseExecution => exact nofun
  | claimExecute => exact absurd hlt (Nat.not_lt.mpr (Nat.le_succ _))
  | _ => exact absurd hlt (Nat.lt_irrefl _)

/-- The places where a thread may have to wait. -/
def Pc.MayBlock : Pc → Prop
  | .lockDependency _ _ => True
  | .takeDependencies _ _ => True
  | .waiting _ _ => True
  | .finished => True
  | .failed => True
  | _ => False

/-- The thread can take a step. -/
def Enabled (self : Scheduler) (p : Pc) : Prop := ∃ e self' p', SchedulerStep self p e self' p'

theorem enabled_of_incarnate {txnIdx : TxnIndex} {p : Pc}
    (hnone : self.tryIncarnate txnIdx = none → Enabled self p)
    (htask : ∀ incarnation, self.tryIncarnate txnIdx = some (incarnation, none) → Enabled self p)
    (hwake : ∀ incarnation condvar, self.tryIncarnate txnIdx = some (incarnation, some condvar) → Enabled self p) :
    Enabled self p := by
  cases h : self.tryIncarnate txnIdx with
  | none => exact hnone h
  | some result =>
      obtain ⟨incarnation, condvar⟩ := result
      cases condvar with
      | none => exact htask incarnation h
      | some condvar => exact hwake incarnation condvar h

/-- Everywhere else a thread can go on. -/
theorem enabled (h : ¬p.MayBlock) : Enabled self p := by
  cases p with
  | nextTask =>
      cases hdone : self.doneMarker with
      | true => exact ⟨_, _, _, .done hdone⟩
      | false => exact ⟨_, _, _, .notDone hdone⟩
  | loadValidationIdx => exact ⟨_, _, _, .loadValidationIdx⟩
  | loadExecutionIdx idxToValidate =>
      by_cases hlt : idxToValidate < self.executionIdx
      · exact ⟨_, _, _, .preferValidation hlt⟩
      · exact ⟨_, _, _, .preferExecution hlt⟩
  | tryValidate =>
      by_cases hge : self.validationIdx ≥ self.numTxns
      · exact ⟨_, _, _, .noneToValidate hge⟩
      · exact ⟨_, _, _, .someToValidate hge⟩
  | guardValidate => exact ⟨_, _, _, .guardValidate⟩
  | claimValidate => exact ⟨_, _, _, .claimValidate⟩
  | isExecuted idxToValidate =>
      cases h : self.isExecuted idxToValidate with
      | none => exact ⟨_, _, _, .noValidationTask h⟩
      | some incarnation => exact ⟨_, _, _, .validationTask h⟩
  | tryExecute =>
      by_cases hge : self.executionIdx ≥ self.numTxns
      · exact ⟨_, _, _, .noneToExecute hge⟩
      · exact ⟨_, _, _, .someToExecute hge⟩
  | guardExecute => exact ⟨_, _, _, .guardExecute⟩
  | claimExecute => exact ⟨_, _, _, .claimExecute⟩
  | tryIncarnate idxToExecute =>
      exact enabled_of_incarnate (fun h => ⟨_, _, _, .noExecutionTask h⟩) (fun _ h => ⟨_, _, _, .executionTask h⟩)
        fun _ _ h => ⟨_, _, _, .wakeTask h⟩
  | checkDone => exact ⟨_, _, _, .checkDone⟩
  | checkValidation => exact ⟨_, _, _, .checkValidation⟩
  | checkExecution => exact ⟨_, _, _, .checkExecution⟩
  | checkTasks observedCnt valIdx execIdx =>
      by_cases hwork : min execIdx valIdx < self.numTxns ∨ self.numActiveTasks > 0
      · exact ⟨_, _, _, .workRemaining hwork⟩
      · exact ⟨_, _, _, .noWorkRemaining hwork⟩
  | recheck observedCnt =>
      by_cases heq : observedCnt = self.decreaseCnt
      · exact ⟨_, _, _, .unchanged heq⟩
      · exact ⟨_, _, _, .changed heq⟩
  | setDone => exact ⟨_, _, _, .setDone⟩
  | dropGuard =>
      by_cases hpos : self.numActiveTasks > 0
      · exact ⟨_, _, _, .dropGuard hpos⟩
      · exact ⟨_, _, _, .dropGuardFails hpos⟩
  | validating => exact ⟨_, _, _, .validated⟩
  | aborting => exact ⟨_, _, _, .finishAbort⟩
  | executing => exact ⟨_, _, _, .finishExecution false⟩
  | notifying => exact ⟨_, _, _, .notify⟩
  | checkDependency version depTxnIdx =>
      cases h : self.isExecuted depTxnIdx with
      | none => exact ⟨_, _, _, .dependencyOpen h⟩
      | some incarnation => exact ⟨_, _, _, .dependencyResolved h⟩
  | suspending version depTxnIdx =>
      by_cases hexecuting : ∃ incarnation, self.txnStatus version.1 = .executing incarnation
      · obtain ⟨incarnation, hstatus⟩ := hexecuting
        exact ⟨_, _, _, .suspend hstatus⟩
      · exact ⟨_, _, _, .suspendFails fun incarnation hstatus => hexecuting ⟨incarnation, hstatus⟩⟩
  | pushing => exact ⟨_, _, _, .push⟩
  | setExecuted version =>
      by_cases hstatus : self.txnStatus version.1 = .executing version.2
      · exact ⟨_, _, _, .setExecuted hstatus⟩
      · exact ⟨_, _, _, .setExecutedFails hstatus⟩
  | resuming version revalidateSuffix txnDeps minDep =>
      cases txnDeps with
      | nil =>
          cases minDep with
          | none => exact ⟨_, _, _, .noDependencies⟩
          | some target => exact ⟨_, _, _, .someDependencies⟩
      | cons dep txnDeps =>
          by_cases hsuspended : ∃ incarnation condvar, self.txnStatus dep = .suspended incarnation condvar
          · obtain ⟨incarnation, condvar, hstatus⟩ := hsuspended
            exact ⟨_, _, _, .resume hstatus⟩
          · exact ⟨_, _, _, .resumeFails fun incarnation condvar hstatus => hsuspended ⟨incarnation, condvar, hstatus⟩⟩
  | decreaseExecution version revalidateSuffix targetIdx =>
      by_cases hgt : self.executionIdx > targetIdx
      · exact ⟨_, _, _, .decreaseExecution hgt⟩
      · exact ⟨_, _, _, .keepExecution hgt⟩
  | countExecution => exact ⟨_, _, _, .countExecution⟩
  | checkRevalidate version revalidateSuffix =>
      by_cases hgt : self.validationIdx > version.1
      · cases revalidateSuffix with
        | true => exact ⟨_, _, _, .revalidateSuffix hgt⟩
        | false => exact ⟨_, _, _, .revalidateSelf hgt⟩
      · exact ⟨_, _, _, .alreadyLower hgt⟩
  | decreaseValidation targetIdx =>
      by_cases hgt : self.validationIdx > targetIdx
      · exact ⟨_, _, _, .decreaseValidation hgt⟩
      · exact ⟨_, _, _, .keepValidation hgt⟩
  | countValidation => exact ⟨_, _, _, .countValidation⟩
  | setAborted version =>
      by_cases hstatus : self.txnStatus version.1 = .aborting version.2
      · exact ⟨_, _, _, .setAborted hstatus⟩
      · exact ⟨_, _, _, .setAbortedFails hstatus⟩
  | decreaseSuffix txnIdx =>
      by_cases hgt : self.validationIdx > txnIdx + 1
      · exact ⟨_, _, _, .decreaseSuffix hgt⟩
      · exact ⟨_, _, _, .keepSuffix hgt⟩
  | countSuffix => exact ⟨_, _, _, .countSuffix⟩
  | checkReexecute txnIdx =>
      by_cases hgt : self.executionIdx > txnIdx
      · exact ⟨_, _, _, .reexecute hgt⟩
      · exact ⟨_, _, _, .executedLater hgt⟩
  | reincarnate txnIdx =>
      exact enabled_of_incarnate (fun h => ⟨_, _, _, .notReincarnated h⟩) (fun _ h => ⟨_, _, _, .reincarnated h⟩)
        fun _ _ h => ⟨_, _, _, .reincarnatedWake h⟩
  | _ => exact absurd trivial h

end Steps

section Runs

variable {Thread : Type} [DecidableEq Thread] [Fintype Thread] {n : ℕ} {c c' : Config Thread Scheduler Pc}
  {t : Thread} {e : Event} {i j : TxnIndex}

/-- The mutexes of the dependency lists: each is held by at most one thread, and marked when it is held. -/
structure Locked (c : Config Thread Scheduler Pc) : Prop where
  exclusive : Exclusive Pc.locks c.pc
  held : ∀ j, c.shared.dependencyLock j = true ↔ ∃ t, (c.pc t).locks = some j

omit [Fintype Thread] in
theorem Locked.next (h : Locked c) (hsound : c'.pc t ≠ .failed) (hnext : Next SchedulerStep t e c c') :
    Locked c' := by
  have hpc := hnext.pc_eq
  rcases hnext.moved.locks hsound with ⟨hsame, hlock⟩ | ⟨j, hbefore, hafter, hfree, hlock⟩ | ⟨j, hbefore, hafter, hlock⟩
  · refine ⟨?_, ?_⟩
    · rw [hpc]
      exact h.exclusive.keep fun r hr => hsame ▸ hr
    · intro j
      rw [hlock, h.held]
      apply (hnext.exists_pc_iff (P := fun p => p.locks = some j) _).symm
      rw [hsame]
  · have hnone : ∀ t', (c.pc t').locks ≠ some j := by
      intro t' ht'
      have hheld := (h.held j).mpr ⟨t', ht'⟩
      rw [hfree] at hheld
      cases hheld
    refine ⟨?_, ?_⟩
    · rw [hpc]
      apply h.exclusive.update
      intro r hr t' _
      obtain rfl := Option.some.inj (hafter.symm.trans hr)
      exact hnone t'
    · intro k
      rw [hlock]
      by_cases hk : k = j
      · rw [hk, Function.update_self]
        exact iff_of_true rfl ⟨t, hafter⟩
      · rw [Function.update_of_ne hk, h.held]
        apply (hnext.exists_pc_iff (P := fun p => p.locks = some k) _).symm
        simp [hbefore, hafter, Ne.symm hk]
  · refine ⟨?_, ?_⟩
    · rw [hpc]
      apply h.exclusive.keep
      intro r hr
      rw [hafter] at hr
      cases hr
    · intro k
      rw [hlock]
      by_cases hk : k = j
      · rw [hk, Function.update_self]
        refine iff_of_false nofun ?_
        rintro ⟨t', ht'⟩
        by_cases ht : t' = t
        · rw [ht, hafter] at ht'
          cases ht'
        · rw [hnext.others ht] at ht'
          exact ht (h.exclusive t' t j ht' hbefore)
      · rw [Function.update_of_ne hk, h.held]
        apply (hnext.exists_pc_iff (P := fun p => p.locks = some k) _).symm
        simp [hbefore, hafter, Ne.symm hk]

/-- Dependencies are recorded on transactions that are not executed, until a thread takes them. -/
def NoZombies (c : Config Thread Scheduler Pc) : Prop :=
  ∀ j, (c.shared.txnDependency j ≠ [] ∨ ∃ t, (c.pc t).Records j) →
    ¬(c.shared.txnStatus j).Executed ∨ ∃ t, (c.pc t).Takes j

theorem Pc.Records.locks {p : Pc} (h : p.Records j) : p.locks = some j := by
  cases p with
  | suspending => exact congrArg some h
  | pushing => exact congrArg some h
  | _ => cases h

omit [Fintype Thread] in
theorem NoZombies.next (h : NoZombies c) (hlocked : Locked c')
    (huntouched : ∀ i, c.shared.numTxns ≤ i → c'.shared.txnStatus i = .readyToExecute 0 none)
    (hnext : Next SchedulerStep t e c c') : NoZombies c' := by
  have hstep := hnext.moved
  intro j hrecord
  -- a dependency that is new was recorded by this thread, on a transaction that is not executed
  have hcases : ¬(c'.shared.txnStatus j).Executed ∨
      (c.shared.txnDependency j ≠ [] ∨ ∃ t, (c.pc t).Records j) := by
    rcases hrecord with hne | ⟨t', ht'⟩
    · rcases hstep.dependency hne with hrecords | hne
      · exact Or.inr (Or.inr ⟨t, hrecords⟩)
      · exact Or.inr (Or.inl hne)
    · by_cases ht : t' = t
      · subst ht
        rcases hstep.records ht' with hrecords | hle | hnot
        · exact Or.inr (Or.inr ⟨t', hrecords⟩)
        · rw [huntouched j hle]
          exact Or.inl id
        · exact Or.inl hnot
      · rw [hnext.others ht] at ht'
        exact Or.inr (Or.inr ⟨t', ht'⟩)
  rcases hcases with hnot | hold
  · exact Or.inl hnot
  · by_cases hexecuted : (c'.shared.txnStatus j).Executed
    · rcases hstep.executed hexecuted with hbefore | htakes
      · rcases h j hold with hnot | htakes
        · exact absurd hbefore hnot
        · rcases hnext.exists_pc (P := fun p => p.Takes j) htakes with ht | hex
          · -- the list was taken while nobody held its mutex
            obtain ⟨hempty, hfree, hlock⟩ := hstep.takes ht
            rcases hrecord with hne | ⟨t', ht'⟩
            · exact absurd hempty hne
            · have hheld := (hlocked.held j).mpr ⟨t', ht'.locks⟩
              rw [hlock, hfree] at hheld
              cases hheld
          · exact Or.inr hex
      · exact Or.inr ⟨t, htakes⟩
    · exact Or.inl hexecuted

/-- What else holds of the dependencies, and of the transactions that threads execute. -/
structure Ordered (n : ℕ) (c : Config Thread Scheduler Pc) : Prop where
  lower : ∀ t, (c.pc t).Lower
  listsLower : ∀ j, ∀ d ∈ c.shared.txnDependency j, j < d
  untouched : ∀ i, n ≤ i → c.shared.txnStatus i = .readyToExecute 0 none
  locked : Locked c
  noZombies : NoZombies c
  ahead : ∃ t, (c.pc t).Ahead c.shared.executionIdx

omit [Fintype Thread] in
theorem Ordered.next (h : Ordered n c) (hn : c.shared.numTxns = n) (hsound : c'.pc t ≠ .failed)
    (hnext : Next SchedulerStep t e c c') : Ordered n c' := by
  have hstep := hnext.moved
  have huntouched : ∀ i, n ≤ i → c'.shared.txnStatus i = .readyToExecute 0 none := by
    intro i hi
    exact hstep.untouched (hn.le.trans hi) (h.untouched i hi)
  have hlocked := h.locked.next hsound hnext
  refine ⟨?_, ?_, huntouched, hlocked, ?_, ?_⟩
  · exact hnext.forall_pc (P := Pc.Lower) h.lower (hstep.lower (h.lower t))
  · exact hstep.listsLower (h.lower t) h.listsLower
  · exact h.noZombies.next hlocked (fun i hi => huntouched i (hn.symm.le.trans hi)) hnext
  · by_cases hlt : c'.shared.executionIdx < c.shared.executionIdx
    · exact ⟨t, hstep.ahead_of_lt hlt⟩
    · obtain ⟨t', ht'⟩ := h.ahead
      refine ⟨t', ?_⟩
      by_cases ht : t' = t
      · subst ht
        exact hstep.ahead ht'
      · rw [hnext.others ht]
        intro i hi
        exact (ht' i hi).trans_le (Nat.not_lt.mp hlt)

omit [DecidableEq Thread] [Fintype Thread] in
theorem ordered_start [Nonempty Thread] : Ordered n (Scheduler.start Thread n) := by
  refine ⟨fun _ => trivial, ?_, fun _ _ => rfl, ⟨?_, ?_⟩, ?_, ?_⟩
  · intro j d hd
    cases hd
  · intro t t' r ht
    cases ht
  · intro j
    exact iff_of_false nofun fun ⟨t, ht⟩ => by cases ht
  · intro j _
    exact Or.inl id
  · obtain ⟨t⟩ := ‹Nonempty Thread›
    exact ⟨t, nofun⟩

theorem Reachable.ordered [Nonempty Thread] (h : Reachable SchedulerStep (Scheduler.start Thread n) c) :
    Ordered n c := by
  apply Reachable.invariant h ordered_start
  intro c c' t e hreach hinv hnext
  exact hinv.next (Reachable.consistent hreach).numTxns ((Reachable.consistent (hreach.next hnext)).sound t) hnext

omit [DecidableEq Thread] in
/-- Where a suspended transaction is recorded. -/
theorem Ordered.recorded (h : Ordered n c) (hcons : Consistent n c) {incarnation : Incarnation}
    {condvar : DependencyCondvar} (hsuspended : c.shared.txnStatus i = .suspended incarnation condvar) :
    (∃ j < i, i ∈ c.shared.txnDependency j ∧ (¬(c.shared.txnStatus j).Executed ∨ ∃ t, (c.pc t).Takes j)) ∨
      (∃ t, i ∈ (c.pc t).hold.carried) ∨ ∃ t, (c.pc t).hold = .parking (i, incarnation) condvar := by
  obtain ⟨place, hplaced⟩ := hcons.protocol.placed
  rcases hplaced.recorded i incarnation condvar hsuspended with hne | hparking
  · cases hplace : place i with
    | none => exact False.elim (hne hplace)
    | some where' =>
        cases where' with
        | inl j =>
            have hmem := (hplaced.listed i j).mpr hplace
            exact Or.inl ⟨j, h.listsLower j i hmem, hmem, h.noZombies j (Or.inl (List.ne_nil_of_mem hmem))⟩
        | inr t => exact Or.inr (Or.inl ⟨t, (hplaced.carried i t).mpr hplace⟩)
  · exact Or.inr (Or.inr hparking)

/-- All threads wait for condition variables that nobody has set. -/
def Stuck (c : Config Thread Scheduler Pc) : Prop :=
  ∀ t, ∃ version condvar, c.pc t = .waiting version condvar ∧ c.shared.resolved condvar = false

omit [DecidableEq Thread] [Fintype Thread] in
/-- Threads that wait have no other business. -/
theorem Stuck.absurd (h : Stuck c) {P : Pc → Prop} (hP : ∀ version condvar, ¬P (.waiting version condvar))
    (hex : ∃ t, P (c.pc t)) : False := by
  obtain ⟨t, ht⟩ := hex
  obtain ⟨version, condvar, hpc, -⟩ := h t
  rw [hpc] at ht
  exact hP version condvar ht

omit [DecidableEq Thread] in
/-- Whoever waits for a transaction below `execution_idx` waits for one that waits for a lower one. -/
theorem Stuck.descend (h : Stuck c) (hcons : Consistent n c) (hsought : Sought n c) (hordered : Ordered n c)
    {version : Version} {condvar : DependencyCondvar} (hpc : c.pc t = .waiting version condvar)
    (hlt : version.1 < c.shared.executionIdx) :
    ∃ t' version' condvar', c.pc t' = .waiting version' condvar' ∧ version'.1 < version.1 := by
  have hnotReady : ∀ i < n, i < c.shared.executionIdx → ¬(c.shared.txnStatus i).Ready := by
    intro i hi hlt hready
    rcases hsought i hi hready with hle | hseeks
    · omega
    · exact h.absurd (P := fun p => p.Seeks i) (fun _ _ => id) hseeks
  have howned : ((c.pc t).hold).owned = some version.1 := by
    rw [hpc]
    rfl
  have hfits := hcons.protocol.owned.fits t version.1 howned
  have hn : version.1 < n := by
    by_contra hge
    refine (hcons.protocol.owned.unowned (i := version.1) ?_ t) howned
    rw [show c.shared.board.status version.1 = .readyToExecute 0 none from
      hordered.untouched version.1 (Nat.not_lt.mp hge)]
    trivial
  rw [hpc] at hfits
  rcases hfits with hsuspended | hready | hexecuting
  · -- the dependency is recorded with a lower transaction that is not executed
    obtain ⟨j, hj, hnotExecuted⟩ : ∃ j < version.1, ¬(c.shared.txnStatus j).Executed := by
      rcases hordered.recorded hcons hsuspended with ⟨j, hj, -, hnot | htakes⟩ | hcarried | hparking
      · exact ⟨j, hj, hnot⟩
      · exact (h.absurd (P := fun p => p.Takes j) (fun _ _ => id) htakes).elim
      · exact (h.absurd (P := fun p => version.1 ∈ p.hold.carried) (fun _ _ => List.not_mem_nil) hcarried).elim
      · exact (h.absurd (P := fun p => p.hold = .parking (version.1, version.2) condvar) (fun _ _ => nofun) hparking).elim
    have hnotFree : ¬(c.shared.txnStatus j).Free := by
      have hready := hnotReady j (hj.trans hn) (hj.trans hlt)
      cases hstatus : c.shared.txnStatus j with
      | readyToExecute => rw [hstatus] at hready; exact fun _ => hready trivial
      | executed => rw [hstatus] at hnotExecuted; exact fun _ => hnotExecuted trivial
      | _ => exact id
    obtain ⟨t', ht'⟩ := hcons.protocol.owned.owner j hnotFree
    obtain ⟨version', condvar', hpc', -⟩ := h t'
    rw [hpc'] at ht'
    obtain rfl := Option.some.inj ht'
    exact ⟨t', version', condvar', hpc', hj⟩
  · refine False.elim (hnotReady version.1 hn hlt ?_)
    rw [show c.shared.txnStatus version.1 = _ from hready]
    trivial
  · rcases hcons.protocol.noticed t version condvar (by rw [hpc]; rfl) hexecuting with hresolved | ⟨t', ht'⟩
    · obtain ⟨version', condvar', hpc', hunresolved⟩ := h t
      obtain ⟨-, rfl⟩ := Pc.waiting.inj (hpc.symm.trans hpc')
      rw [show c.shared.resolved condvar = true from hresolved] at hunresolved
      cases hunresolved
    · obtain ⟨version', condvar', hpc', -⟩ := h t'
      dsimp only at ht'
      rw [hpc'] at ht'
      cases ht'

omit [DecidableEq Thread] in
theorem Stuck.impossible (h : Stuck c) (hcons : Consistent n c) (hsought : Sought n c) (hordered : Ordered n c) :
    False := by
  have hdescent : ∀ i, ∀ t version condvar, c.pc t = .waiting version condvar → version.1 = i →
      version.1 < c.shared.executionIdx → False := by
    intro i
    induction i using Nat.strong_induction_on with
    | _ i ih =>
        intro t version condvar hpc hi hlt
        obtain ⟨t', version', condvar', hpc', hlower⟩ := h.descend hcons hsought hordered hpc hlt
        exact ih version'.1 (hi ▸ hlower) t' version' condvar' hpc' rfl (hlower.trans hlt)
  obtain ⟨t, ht⟩ := hordered.ahead
  obtain ⟨version, condvar, hpc, -⟩ := h t
  exact hdescent version.1 t version condvar hpc rfl (ht version.1 (by rw [hpc]; rfl))

/-- **No deadlock.** In every configuration that the threads reach, some thread can take a step, or all threads
have finished. -/
theorem no_deadlock [Nonempty Thread] (h : Reachable SchedulerStep (Scheduler.start Thread n) c) :
    (∃ t, Enabled c.shared (c.pc t)) ∨ ∀ t, c.pc t = .finished := by
  by_contra hnot
  have hcons := Reachable.consistent h
  have hordered := Reachable.ordered h
  have hstill : ∀ t, ¬Enabled c.shared (c.pc t) := fun t ht => hnot (Or.inl ⟨t, ht⟩)
  -- nobody holds a mutex, so that nobody waits for one
  have hfree : ∀ j, c.shared.dependencyLock j = false := by
    intro j
    by_contra hheld
    obtain ⟨t, ht⟩ := (hordered.locked.held j).mp (Bool.not_eq_false _ ▸ hheld)
    refine hstill t (enabled ?_)
    intro hblock
    cases hpc : c.pc t with
    | lockDependency | takeDependencies | waiting | finished | failed => rw [hpc] at ht; cases ht
    | _ => rw [hpc] at hblock; cases hblock
  have hpcs : ∀ t, c.pc t = .finished ∨
      ∃ version condvar, c.pc t = .waiting version condvar ∧ c.shared.resolved condvar = false := by
    intro t
    have hblock : (c.pc t).MayBlock := by
      by_contra hno
      exact hstill t (enabled hno)
    have hsound := hcons.sound t
    have hno := hstill t
    cases hpc : c.pc t with
    | lockDependency version depTxnIdx =>
        rw [hpc] at hno
        exact False.elim (hno ⟨_, _, _, .lockDependency (hfree depTxnIdx)⟩)
    | takeDependencies version revalidateSuffix =>
        rw [hpc] at hno
        exact False.elim (hno ⟨_, _, _, .takeDependencies (hfree version.1)⟩)
    | waiting version condvar =>
        refine Or.inr ⟨version, condvar, rfl, ?_⟩
        by_contra hresolved
        rw [hpc] at hno
        exact hno ⟨_, _, _, .wake (Bool.not_eq_false _ ▸ hresolved)⟩
    | finished => exact Or.inl rfl
    | failed => exact False.elim (hsound hpc)
    | _ => rw [hpc] at hblock; cases hblock
  by_cases hsome : ∃ t, c.pc t = .finished
  · obtain ⟨t, ht⟩ := hsome
    have hsettled : Settled n c := by
      have hobserved := (Reachable.watched h).observed t
      rwa [ht] at hobserved
    refine hnot (Or.inr fun t' => ?_)
    rcases hpcs t' with hfinished | ⟨version, condvar, hpc, -⟩
    · exact hfinished
    · have hquiet := hsettled.quiet t'
      rw [hpc] at hquiet
      cases hquiet
  · refine Stuck.impossible (c := c) (fun t => ?_) hcons (Reachable.sought h) hordered
    rcases hpcs t with hfinished | hwaiting
    · exact False.elim (hsome ⟨t, hfinished⟩)
    · exact hwaiting

end Runs

end MoveTutorial.Executor
