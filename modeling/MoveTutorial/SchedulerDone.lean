import MoveTutorial.SchedulerSafety

/-! When the scheduler is done. `check_done` reads the counters one after the other, while other threads
change them; it is sound since an index is decreased only by a thread that has a task, and this thread
counts the decrease before it gives the task up. -/

namespace MoveTutorial.Executor

open Interleaving

namespace Pc

/-- The thread will try to execute the transaction, or decrease `execution_idx` to it. -/
def Seeks : Pc → TxnIndex → Prop
  | .tryIncarnate idxToExecute, i => idxToExecute = i
  | .resuming _ _ _ minDep, i => ∃ target, minDep = some target ∧ target ≤ i
  | .decreaseExecution _ _ targetIdx, i => targetIdx ≤ i
  | .decreaseSuffix txnIdx, i => txnIdx = i
  | .countSuffix txnIdx, i => txnIdx = i
  | .checkReexecute txnIdx, i => txnIdx = i
  | .reincarnate txnIdx, i => txnIdx = i
  | _, _ => False

/-- The thread decreased an index and has not counted it yet. -/
def Owes : Pc → Prop
  | .countExecution _ _ => True
  | .countValidation => True
  | .countSuffix _ => True
  | _ => False

/-- The thread has no task, and what it claimed is beyond the block. -/
def Quiet (n : ℕ) : Pc → Prop
  | .isExecuted idxToValidate => n ≤ idxToValidate
  | .tryIncarnate idxToExecute => n ≤ idxToExecute
  | .claimValidate => True
  | .claimExecute => True
  | .dropGuard => True
  | p => p.guards = 0

theorem Seeks.guards {p : Pc} {i : TxnIndex} (h : p.Seeks i) : p.guards = 1 := by
  cases p with
  | tryIncarnate | resuming | decreaseExecution | decreaseSuffix | countSuffix | checkReexecute | reincarnate => rfl
  | _ => cases h

theorem Owes.guards {p : Pc} (h : p.Owes) : p.guards = 1 := by
  cases p with
  | countExecution | countValidation | countSuffix => rfl
  | _ => cases h

theorem Quiet.of_guards {p : Pc} {n : ℕ} (h : p.guards = 0) : p.Quiet n := by
  cases p with
  | isExecuted | tryIncarnate | claimValidate | claimExecute | dropGuard => cases h
  | _ => exact h

theorem guards_of_owned {p : Pc} {i : TxnIndex} (h : p.hold.owned = some i) : p.guards = 1 := by
  cases p with
  | aborting | executing | lockDependency | checkDependency | suspending | pushing | waiting | setExecuted | setAborted =>
      rfl
  | _ => cases h

end Pc

section Steps

variable {self self' : Scheduler} {p p' : Pc} {e : Event} {i : TxnIndex}

theorem SchedulerStep.decreaseCnt_le (h : SchedulerStep self p e self' p') : self.decreaseCnt ≤ self'.decreaseCnt := by
  cases h with
  | countExecution => exact Nat.le_succ _
  | countValidation => exact Nat.le_succ _
  | countSuffix => exact Nat.le_succ _
  | _ => exact Nat.le_refl _

/-- A decrease that is no longer owed has been counted. -/
theorem SchedulerStep.counted (h : SchedulerStep self p e self' p') (howes : p.Owes) :
    self'.decreaseCnt = self.decreaseCnt + 1 := by
  cases h with
  | countExecution => rfl
  | countValidation => rfl
  | countSuffix => rfl
  | _ => cases howes

/-- A decreased index is owed. -/
theorem SchedulerStep.indices_le (h : SchedulerStep self p e self' p') :
    (self.executionIdx ≤ self'.executionIdx ∧ self.validationIdx ≤ self'.validationIdx) ∨ p'.Owes := by
  cases h with
  | claimValidate => exact Or.inl ⟨Nat.le_refl _, Nat.le_succ _⟩
  | claimExecute => exact Or.inl ⟨Nat.le_succ _, Nat.le_refl _⟩
  | decreaseExecution => exact Or.inr trivial
  | decreaseValidation => exact Or.inr trivial
  | decreaseSuffix => exact Or.inr trivial
  | _ => exact Or.inl ⟨Nat.le_refl _, Nat.le_refl _⟩

theorem ready_of_setStatus {j : TxnIndex} {status : TransactionStatus}
    (h : ((self.setStatus j status).txnStatus i).Ready) : i = j ∧ status.Ready ∨ (self.txnStatus i).Ready := by
  by_cases hij : i = j
  · refine Or.inl ⟨hij, ?_⟩
    rwa [hij, Scheduler.setStatus_self] at h
  · rw [Scheduler.setStatus_of_ne _ hij] at h
    exact Or.inr h

theorem not_ready_setStatus {status : TransactionStatus} (h : ¬status.Ready) :
    ¬((self.setStatus i status).txnStatus i).Ready := by
  rwa [Scheduler.setStatus_self]

/-- A transaction becomes ready by a thread that seeks it. -/
theorem SchedulerStep.ready (h : SchedulerStep self p e self' p') (hready : (self'.txnStatus i).Ready) :
    (self.txnStatus i).Ready ∨ p'.Seeks i := by
  have hother : ∀ {j : TxnIndex} {status : TransactionStatus}, ¬status.Ready →
      ((self.setStatus j status).txnStatus i).Ready → (self.txnStatus i).Ready := by
    intro j status hnot hstatus
    exact (ready_of_setStatus hstatus).resolve_left fun h => hnot h.2
  cases h with
  | executionTask => exact Or.inl (hother id hready)
  | wakeTask => exact Or.inl (hother id hready)
  | aborted => exact Or.inl (hother id hready)
  | suspend => exact Or.inl (hother id hready)
  | setExecuted => exact Or.inl (hother id hready)
  | reincarnated => exact Or.inl (hother id hready)
  | reincarnatedWake => exact Or.inl (hother id hready)
  | @resume _ _ dep _ minDep =>
      rcases ready_of_setStatus hready with ⟨rfl, -⟩ | hold
      · refine Or.inr ⟨_, rfl, ?_⟩
        cases minDep with
        | none => exact Nat.le_refl _
        | some target => exact Nat.min_le_left _ _
      · exact Or.inl hold
  | setAborted =>
      rcases ready_of_setStatus hready with ⟨rfl, -⟩ | hold
      · exact Or.inr rfl
      · exact Or.inl hold
  | _ => exact Or.inl hready

/-- What `execution_idx` passes is claimed. -/
theorem SchedulerStep.executionIdx_le (h : SchedulerStep self p e self' p') (hle : self.executionIdx ≤ i) :
    self'.executionIdx ≤ i ∨ p'.Seeks i := by
  cases h with
  | claimExecute =>
      rcases Nat.eq_or_lt_of_le hle with heq | hlt
      · exact Or.inr heq
      · exact Or.inl hlt
  | decreaseExecution h => exact Or.inl (h.le.trans hle)
  | _ => exact Or.inl hle

/-- A transaction is sought until it is executed, or `execution_idx` is not above it. -/
theorem SchedulerStep.seeks (h : SchedulerStep self p e self' p') (hp' : p' ≠ .failed) (hseeks : p.Seeks i)
    (hi : i < self.numTxns) : p'.Seeks i ∨ self'.executionIdx ≤ i ∨ ¬(self'.txnStatus i).Ready := by
  have hnone : self.tryIncarnate i = none → ¬(self.txnStatus i).Ready := by
    intro h
    exact (Scheduler.tryIncarnate_eq_none.mp h).resolve_left (Nat.not_le.mpr hi)
  cases h with
  | executionTask =>
      obtain rfl := hseeks
      exact Or.inr (Or.inr (not_ready_setStatus id))
  | wakeTask =>
      obtain rfl := hseeks
      exact Or.inr (Or.inr (not_ready_setStatus id))
  | noExecutionTask h =>
      obtain rfl := hseeks
      exact Or.inr (Or.inr (hnone h))
  | reincarnated =>
      obtain rfl := hseeks
      exact Or.inr (Or.inr (not_ready_setStatus id))
  | reincarnatedWake =>
      obtain rfl := hseeks
      exact Or.inr (Or.inr (not_ready_setStatus id))
  | notReincarnated h =>
      obtain rfl := hseeks
      exact Or.inr (Or.inr (hnone h))
  | resume =>
      obtain ⟨target, rfl, hle⟩ := hseeks
      exact Or.inl ⟨_, rfl, (Nat.min_le_right _ _).trans hle⟩
  | noDependencies =>
      obtain ⟨target, hno, -⟩ := hseeks
      cases hno
  | someDependencies =>
      obtain ⟨target, hsome, hle⟩ := hseeks
      obtain rfl := Option.some.inj hsome
      exact Or.inl hle
  | decreaseExecution => exact Or.inr (Or.inl hseeks)
  | keepExecution h => exact Or.inr (Or.inl ((Nat.not_lt.mp h).trans hseeks))
  | decreaseSuffix => exact Or.inl hseeks
  | keepSuffix => exact Or.inl hseeks
  | countSuffix => exact Or.inl hseeks
  | reexecute => exact Or.inl hseeks
  | executedLater h =>
      obtain rfl := hseeks
      exact Or.inr (Or.inl (Nat.not_lt.mp h))
  | resumeFails => exact absurd rfl hp'
  | _ => cases hseeks

/-- Where nothing is left to do, no step begins anything. -/
theorem SchedulerStep.quiet {n : ℕ} (h : SchedulerStep self p e self' p') (hquiet : p.Quiet n) (hn : self.numTxns = n)
    (hp' : p' ≠ .failed) (hexecution : n ≤ self.executionIdx) (hvalidation : n ≤ self.validationIdx) :
    p'.Quiet n ∧ self'.txnStatus = self.txnStatus ∧ n ≤ self'.executionIdx ∧ n ≤ self'.validationIdx := by
  cases h with
  | claimValidate => exact ⟨hvalidation, rfl, hexecution, hvalidation.trans (Nat.le_succ _)⟩
  | claimExecute => exact ⟨hexecution, rfl, hexecution.trans (Nat.le_succ _), hvalidation⟩
  | validationTask h =>
      have hlt := (Scheduler.isExecuted_eq_some.mp h).1
      exact absurd (hlt.trans_eq hn) (Nat.not_lt.mpr hquiet)
  | executionTask h =>
      have hlt := (Scheduler.tryIncarnate_eq_some.mp h).1
      exact absurd (hlt.trans_eq hn) (Nat.not_lt.mpr hquiet)
  | wakeTask h =>
      have hlt := (Scheduler.tryIncarnate_eq_some.mp h).1
      exact absurd (hlt.trans_eq hn) (Nat.not_lt.mpr hquiet)
  | dropGuardFails => exact absurd rfl hp'
  | validated | aborted | notAborted | finishAbort | waitForDependency | finishExecution | notify | lockDependency
  | dependencyResolved | dependencyOpen | suspend | suspendFails | push | wake | setExecuted | setExecutedFails
  | takeDependencies | resume | resumeFails | noDependencies | someDependencies | decreaseExecution | keepExecution
  | countExecution | alreadyLower | revalidateSuffix | revalidateSelf | decreaseValidation | keepValidation
  | countValidation | setAborted | setAbortedFails | decreaseSuffix | keepSuffix | countSuffix | reexecute
  | executedLater | reincarnated | reincarnatedWake | notReincarnated => cases hquiet
  | guardValidate => exact ⟨trivial, rfl, hexecution, hvalidation⟩
  | guardExecute => exact ⟨trivial, rfl, hexecution, hvalidation⟩
  | noValidationTask => exact ⟨trivial, rfl, hexecution, hvalidation⟩
  | noExecutionTask => exact ⟨trivial, rfl, hexecution, hvalidation⟩
  | _ => exact ⟨rfl, rfl, hexecution, hvalidation⟩

end Steps

section Runs

variable {Thread : Type} [DecidableEq Thread] [Fintype Thread] {n : ℕ} {c c' : Config Thread Scheduler Pc}
  {t : Thread} {e : Event} {i : TxnIndex}

/-- A transaction that is ready is not forgotten. -/
def Sought (n : ℕ) (c : Config Thread Scheduler Pc) : Prop :=
  ∀ i < n, (c.shared.txnStatus i).Ready → c.shared.executionIdx ≤ i ∨ ∃ t, (c.pc t).Seeks i

omit [Fintype Thread] in
theorem Sought.next (h : Sought n c) (hn : c.shared.numTxns = n) (hsound : c'.pc t ≠ .failed)
    (hnext : Next SchedulerStep t e c c') : Sought n c' := by
  have hstep := hnext.moved
  intro i hi hready
  rcases hstep.ready hready with hready' | hseeks
  · rcases h i hi hready' with hle | hex
    · exact (hstep.executionIdx_le hle).imp_right fun hseeks => ⟨t, hseeks⟩
    · rcases hnext.exists_pc (P := fun p => p.Seeks i) hex with ht | hex
      · rcases hstep.seeks hsound ht (hi.trans_eq hn.symm) with hseeks | hle | hnot
        · exact Or.inr ⟨t, hseeks⟩
        · exact Or.inl hle
        · exact absurd hready hnot
      · exact Or.inr hex
  · exact Or.inr ⟨t, hseeks⟩

theorem Reachable.sought (h : Reachable SchedulerStep (Scheduler.start Thread n) c) : Sought n c := by
  apply Reachable.invariant h
  · intro i _ _
    exact Or.inl (Nat.zero_le i)
  · intro c c' t e hreach hinv hnext
    exact hinv.next (Reachable.consistent hreach).numTxns ((Reachable.consistent (hreach.next hnext)).sound t) hnext

/-- Every transaction is executed, no thread has a task, and no index will give out another one. -/
structure Settled (n : ℕ) (c : Config Thread Scheduler Pc) : Prop where
  executed : ∀ i < n, (c.shared.txnStatus i).Executed
  executionIdx : n ≤ c.shared.executionIdx
  validationIdx : n ≤ c.shared.validationIdx
  quiet : ∀ t, (c.pc t).Quiet n

omit [Fintype Thread] in
theorem Settled.next (h : Settled n c) (hn : c.shared.numTxns = n) (hsound : c'.pc t ≠ .failed)
    (hnext : Next SchedulerStep t e c c') : Settled n c' := by
  obtain ⟨hquiet, hstatus, hexecution, hvalidation⟩ :=
    hnext.moved.quiet (h.quiet t) hn hsound h.executionIdx h.validationIdx
  refine ⟨?_, hexecution, hvalidation, hnext.forall_pc (P := fun p => p.Quiet n) h.quiet hquiet⟩
  intro i hi
  rw [hstatus]
  exact h.executed i hi

omit [DecidableEq Thread] in
/-- Without guards, and with both indices beyond the block, nothing is left to do. -/
theorem Consistent.settled (h : Consistent n c) (hsought : Sought n c) (htasks : c.shared.numActiveTasks = 0)
    (hexecution : n ≤ c.shared.executionIdx) (hvalidation : n ≤ c.shared.validationIdx) : Settled n c := by
  have hguards : ∀ t, (c.pc t).guards = 0 := by
    intro t
    exact Nat.le_zero.mp (htasks ▸ h.guards_le t)
  refine ⟨?_, hexecution, hvalidation, fun t => Pc.Quiet.of_guards (hguards t)⟩
  intro i hi
  have hnotReady : ¬(c.shared.txnStatus i).Ready := by
    intro hready
    rcases hsought i hi hready with hle | ⟨t, ht⟩
    · omega
    · have hguard := ht.guards
      rw [hguards t] at hguard
      cases hguard
  have hfree : (c.shared.txnStatus i).Free := by
    by_contra hnot
    obtain ⟨t, ht⟩ := h.protocol.owned.owner i hnot
    have hguard := Pc.guards_of_owned ht
    rw [hguards t] at hguard
    cases hguard
  cases hstatus : c.shared.txnStatus i with
  | executed incarnation => trivial
  | readyToExecute incarnation condvar =>
      rw [hstatus] at hnotReady
      exact absurd trivial hnotReady
  | _ =>
      rw [hstatus] at hfree
      cases hfree

/-- Some thread decreased an index and has not counted it yet. -/
def Owing (c : Config Thread Scheduler Pc) : Prop := ∃ t, (c.pc t).Owes

/-- What a thread in `check_done` may conclude from what it has read so far. -/
def Observed (n : ℕ) (c : Config Thread Scheduler Pc) : Pc → Prop
  | .checkValidation observedCnt => observedCnt ≤ c.shared.decreaseCnt
  | .checkExecution observedCnt valIdx =>
      observedCnt ≤ c.shared.decreaseCnt ∧
        (n ≤ valIdx → observedCnt < c.shared.decreaseCnt ∨ Owing c ∨ n ≤ c.shared.validationIdx)
  | .checkTasks observedCnt valIdx execIdx =>
      observedCnt ≤ c.shared.decreaseCnt ∧
        (n ≤ valIdx → n ≤ execIdx → observedCnt < c.shared.decreaseCnt ∨ Owing c ∨
          n ≤ c.shared.validationIdx ∧ n ≤ c.shared.executionIdx)
  | .recheck observedCnt => observedCnt < c.shared.decreaseCnt ∨ Settled n c
  | .setDone => Settled n c
  | .finished => Settled n c
  | _ => True

omit [Fintype Thread] in
/-- A decrease is owed until it is counted. -/
theorem Owing.next {observedCnt : ℕ} {indices indices' : Prop} (hnext : Next SchedulerStep t e c c')
    (hle : observedCnt ≤ c.shared.decreaseCnt)
    (hindices : indices → indices' ∨ (c'.pc t).Owes)
    (h : observedCnt < c.shared.decreaseCnt ∨ Owing c ∨ indices) :
    observedCnt < c'.shared.decreaseCnt ∨ Owing c' ∨ indices' := by
  rcases h with hlt | howing | hidx
  · exact Or.inl (hlt.trans_le hnext.moved.decreaseCnt_le)
  · rcases hnext.exists_pc (P := Pc.Owes) howing with ht | howing
    · rw [hnext.moved.counted ht]
      exact Or.inl (Nat.lt_succ_of_le hle)
    · exact Or.inr (Or.inl howing)
  · rcases hindices hidx with hidx | howes
    · exact Or.inr (Or.inr hidx)
    · exact Or.inr (Or.inl ⟨t, howes⟩)

omit [Fintype Thread] in
/-- What a thread may conclude stays true whatever the threads do. -/
theorem Observed.next {p : Pc} (h : Observed n c p) (hn : c.shared.numTxns = n) (hsound : c'.pc t ≠ .failed)
    (hnext : Next SchedulerStep t e c c') : Observed n c' p := by
  have hcnt := hnext.moved.decreaseCnt_le
  have hindices := hnext.moved.indices_le
  cases p with
  | checkValidation observedCnt => exact Nat.le_trans h hcnt
  | checkExecution observedCnt valIdx =>
      refine ⟨h.1.trans hcnt, fun hval => Owing.next hnext h.1 ?_ (h.2 hval)⟩
      intro hidx
      exact hindices.imp_left fun hle => hidx.trans hle.2
  | checkTasks observedCnt valIdx execIdx =>
      refine ⟨h.1.trans hcnt, fun hval hexec => Owing.next hnext h.1 ?_ (h.2 hval hexec)⟩
      intro hidx
      exact hindices.imp_left fun hle => ⟨hidx.1.trans hle.2, hidx.2.trans hle.1⟩
  | recheck observedCnt =>
      rcases h with hlt | hsettled
      · exact Or.inl (hlt.trans_le hcnt)
      · exact Or.inr (hsettled.next hn hsound hnext)
  | setDone => exact Settled.next h hn hsound hnext
  | finished => exact Settled.next h hn hsound hnext
  | _ => trivial

/-- What the threads in `check_done` observed, and what the marker says. -/
structure Watched (n : ℕ) (c : Config Thread Scheduler Pc) : Prop where
  observed : ∀ t, Observed n c (c.pc t)
  marked : c.shared.doneMarker = true → Settled n c

/-- What the thread concludes after its step. -/
theorem Watched.moved (h : Watched n c) (hcons : Consistent n c) (hsought : Sought n c)
    (hnext : Next SchedulerStep t e c c') (hsound : c'.pc t ≠ .failed) : Observed n c' (c'.pc t) := by
  have hstep := hnext.moved
  have hold := h.observed t
  have hbefore := hold.next hcons.numTxns hsound hnext
  have hsettled : Settled n c → Settled n c' := fun hset => hset.next hcons.numTxns hsound hnext
  generalize c.pc t = p at hstep hold hbefore
  generalize c'.pc t = p' at hstep
  generalize hshared : c'.shared = self' at hstep
  cases p' with
  | checkValidation observedCnt =>
      cases hstep
      exact Nat.le_of_eq (congrArg Scheduler.decreaseCnt hshared.symm)
  | checkExecution observedCnt valIdx =>
      cases hstep
      refine ⟨hbefore, fun hval => Or.inr (Or.inr ?_)⟩
      rw [hshared]
      exact hval
  | checkTasks observedCnt valIdx execIdx =>
      cases hstep
      refine ⟨hbefore.1, fun hval hexec => ?_⟩
      rcases hbefore.2 hval with hlt | howing | hidx
      · exact Or.inl hlt
      · exact Or.inr (Or.inl howing)
      · rw [hshared] at hidx ⊢
        exact Or.inr (Or.inr ⟨hidx, hexec⟩)
  | recheck observedCnt =>
      cases hstep with
      | @noWorkRemaining _ valIdx execIdx hwork =>
          -- nobody has a guard, so that no decrease is owed
          rw [hcons.numTxns] at hwork
          rcases hold.2 (by omega) (by omega) with hlt | ⟨t', ht'⟩ | ⟨hval, hexec⟩
          · exact Or.inl (hshared ▸ hlt)
          · have hguard := hcons.guards_le t'
            rw [ht'.guards] at hguard
            omega
          · exact Or.inr (hsettled (hcons.settled hsought (by omega) hexec hval))
  | setDone =>
      cases hstep with
      | unchanged heq =>
          rcases hbefore with hlt | hset
          · rw [hshared] at hlt
            omega
          · exact hset
  | finished =>
      cases hstep with
      | done hmarker => exact hsettled (h.marked hmarker)
  | _ => trivial

theorem Watched.next (h : Watched n c) (hcons : Consistent n c) (hsought : Sought n c)
    (hnext : Next SchedulerStep t e c c') (hsound : c'.pc t ≠ .failed) : Watched n c' := by
  constructor
  · intro t'
    by_cases ht : t' = t
    · rw [ht]
      exact h.moved hcons hsought hnext hsound
    · rw [hnext.others ht]
      exact (h.observed t').next hcons.numTxns hsound hnext
  · intro hmarker
    have hstep := hnext.moved
    have hold := h.observed t
    have hsettled : Settled n c → Settled n c' := fun hset => hset.next hcons.numTxns hsound hnext
    have hmarked := h.marked
    generalize c.pc t = p at hstep hold
    generalize c'.pc t = p' at hstep
    generalize c'.shared = self' at hstep hmarker
    cases hstep with
    | setDone => exact hsettled hold
    | _ => exact hsettled (hmarked hmarker)

theorem Reachable.watched (h : Reachable SchedulerStep (Scheduler.start Thread n) c) : Watched n c := by
  apply Reachable.invariant h
  · exact ⟨fun _ => trivial, nofun⟩
  · intro c c' t e hreach hinv hnext
    exact hinv.next (Reachable.consistent hreach) (Reachable.sought hreach) hnext
      ((Reachable.consistent (hreach.next hnext)).sound t)

end Runs

end MoveTutorial.Executor
