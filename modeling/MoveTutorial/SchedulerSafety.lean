import MoveTutorial.TaskOwnership

/-! What the scheduler guarantees in every interleaving: no assertion fails, the counter of active tasks
counts the guards, and when the marker is set, all transactions are executed and no thread has a task. -/

namespace MoveTutorial.Executor

open Interleaving

/-- The part of the scheduler that says who works on what. -/
def Scheduler.board (self : Scheduler) : Board where
  status := self.txnStatus
  dependency := self.txnDependency
  condvars := self.condvars
  resolved := self.resolved

namespace Pc

/-- What a thread holds. -/
def hold : Pc → Hold
  | .aborting version => .aborting version
  | .executing version => .running version
  | .notifying condvar => .notifying condvar
  | .lockDependency version _ => .running version
  | .checkDependency version _ => .running version
  | .suspending version _ => .running version
  | .pushing version _ condvar => .parking version condvar
  | .waiting version condvar => .waiting version condvar
  | .setExecuted version _ => .running version
  | .resuming _ _ txnDeps _ => .carrying txnDeps
  | .setAborted version => .aborting version
  | _ => .nothing

/-- The task guards of a thread. -/
def guards : Pc → ℕ
  | .nextTask => 0
  | .loadValidationIdx => 0
  | .loadExecutionIdx _ => 0
  | .tryValidate => 0
  | .guardValidate => 0
  | .tryExecute => 0
  | .guardExecute => 0
  | .checkDone => 0
  | .checkValidation _ => 0
  | .checkExecution _ _ => 0
  | .checkTasks _ _ _ => 0
  | .recheck _ => 0
  | .setDone => 0
  | .finished => 0
  | _ => 1

end Pc

section Steps

variable {Thread : Type} {self self' : Scheduler} {p p' : Pc} {e : Event} {i : TxnIndex}

/-- A step of the scheduler, seen from the board. -/
theorem SchedulerStep.transfer (h : SchedulerStep self p e self' p') (hp' : p' ≠ .failed)
    (hfits : ∀ i, p.hold.owned = some i → p.hold.Fits (self.txnStatus i)) :
    Transfer self.board p.hold self'.board p'.hold := by
  cases h with
  | executionTask h => exact .incarnate (Scheduler.tryIncarnate_eq_some.mp h).2
  | reincarnated h => exact .incarnate (Scheduler.tryIncarnate_eq_some.mp h).2
  | wakeTask h => exact .wakeUp (Scheduler.tryIncarnate_eq_some.mp h).2
  | reincarnatedWake h => exact .wakeUp (Scheduler.tryIncarnate_eq_some.mp h).2
  | @suspend version _ _ h =>
      have hversion : self.txnStatus version.1 = .executing version.2 := hfits version.1 rfl
      obtain rfl := TransactionStatus.executing.inj (hversion.symm.trans h)
      exact .suspend
  | aborted h => exact .abort h
  | setExecuted => exact .execute
  | resume h => exact .resume h
  | setAborted => exact .release
  | notify => exact .notify
  | push => exact .push
  | wake h => exact .wake h
  | takeDependencies => exact .take
  | noDependencies => exact .finish
  | someDependencies => exact .finish
  | dropGuardFails => exact absurd rfl hp'
  | suspendFails => exact absurd rfl hp'
  | setExecutedFails => exact absurd rfl hp'
  | resumeFails => exact absurd rfl hp'
  | setAbortedFails => exact absurd rfl hp'
  | _ => exact .keep

/-- The counter follows the guards of the thread. -/
theorem SchedulerStep.guards (h : SchedulerStep self p e self' p') :
    self'.numActiveTasks + p.guards = self.numActiveTasks + p'.guards := by
  cases h with
  | dropGuard h => exact Nat.sub_add_cancel h
  | _ => rfl

theorem SchedulerStep.numTxns (h : SchedulerStep self p e self' p') : self'.numTxns = self.numTxns := by
  cases h <;> rfl

/-- The assertions fail only if the thread does not own what it works on, or holds no guard. -/
theorem SchedulerStep.failed (h : SchedulerStep self p e self' .failed) (hp : p ≠ .failed) :
    self.numActiveTasks < p.guards ∨ (∃ i, p.hold.owned = some i ∧ ¬p.hold.Fits (self.txnStatus i)) ∨
      ∃ i ∈ p.hold.carried, ∀ incarnation condvar, self.txnStatus i ≠ .suspended incarnation condvar := by
  cases h with
  | dropGuardFails h => exact Or.inl (Nat.lt_succ_of_le (Nat.not_lt.mp h))
  | suspendFails h => exact Or.inr (Or.inl ⟨_, rfl, h _⟩)
  | setExecutedFails h => exact Or.inr (Or.inl ⟨_, rfl, h⟩)
  | resumeFails h => exact Or.inr (Or.inr ⟨_, List.mem_cons_self, h⟩)
  | setAbortedFails h => exact Or.inr (Or.inl ⟨_, rfl, h⟩)

end Steps

section Runs

variable {Thread : Type} [DecidableEq Thread] [Fintype Thread] {n : ℕ} {c c' : Config Thread Scheduler Pc}
  {t : Thread} {e : Event}

/-- What holds of the scheduler and its threads in every reachable configuration. -/
structure Consistent (n : ℕ) (c : Config Thread Scheduler Pc) : Prop where
  numTxns : c.shared.numTxns = n
  protocol : Protocol c.shared.board fun t => (c.pc t).hold
  guards : c.shared.numActiveTasks = ∑ t, (c.pc t).guards
  sound : ∀ t, c.pc t ≠ .failed

omit [DecidableEq Thread] in
theorem Consistent.guards_le (h : Consistent n c) (t : Thread) : (c.pc t).guards ≤ c.shared.numActiveTasks := by
  rw [h.guards]
  exact Finset.single_le_sum (f := fun t => (c.pc t).guards) (fun _ _ => Nat.zero_le _) (Finset.mem_univ t)

theorem Consistent.next (h : Consistent n c) (hnext : Next SchedulerStep t e c c') : Consistent n c' := by
  have hstep := hnext.moved
  have hfits := h.protocol.owned.fits t
  have hsound : c'.pc t ≠ .failed := by
    intro hp
    rw [hp] at hstep
    rcases hstep.failed (h.sound t) with hguards | ⟨i, hown, hnot⟩ | ⟨i, hcarried, hnot⟩
    · exact absurd (h.guards_le t) (Nat.not_le.mpr hguards)
    · exact hnot (hfits i hown)
    · obtain ⟨place, hplaced⟩ := h.protocol.placed
      obtain ⟨incarnation, condvar, hsuspended⟩ :=
        hplaced.suspended i (by rw [(hplaced.carried i t).mp hcarried]; exact nofun)
      exact hnot incarnation condvar hsuspended
  have hhold : (fun t' => (c'.pc t').hold) = Function.update (fun t' => (c.pc t').hold) t (c'.pc t).hold := by
    funext t'
    rw [congrFun hnext.pc_eq t']
    exact Function.apply_update (fun _ => Pc.hold) c.pc t (c'.pc t) t'
  refine ⟨?_, ?_, ?_, ?_⟩
  · rw [hstep.numTxns]
    exact h.numTxns
  · rw [hhold]
    exact h.protocol.next (hstep.transfer hsound hfits)
  · have hsum := sum_update Pc.guards c.pc t (c'.pc t)
    rw [← hnext.pc_eq] at hsum
    have hguards := hstep.guards
    have hbefore := h.guards
    omega
  · exact hnext.forall_pc (P := fun p => p ≠ .failed) h.sound hsound

omit [DecidableEq Thread] in
theorem consistent_start : Consistent n (Scheduler.start Thread n) := by
  refine ⟨rfl, Protocol.start (fun _ => rfl) (fun _ => rfl) (fun _ => rfl) fun _ => rfl, ?_, fun _ => nofun⟩
  exact (Finset.sum_eq_zero fun _ _ => rfl).symm

theorem Reachable.consistent (h : Reachable SchedulerStep (Scheduler.start Thread n) c) : Consistent n c :=
  Reachable.invariant h consistent_start fun _ hinv hnext => hinv.next hnext

end Runs

end MoveTutorial.Executor
