import MoveTutorial.SchedulerProgress

/-! The tasks that the scheduler hands out: each version is executed and aborted at most once, in the order
of the incarnations. The guarantees of the scheduler are collected at the end. -/

namespace MoveTutorial.Executor

open Interleaving

/-- How far a transaction has come. -/
def TransactionStatus.progress : TransactionStatus → ℕ
  | .readyToExecute incarnation none => 4 * incarnation
  | .readyToExecute incarnation (some _) => 4 * incarnation + 1
  | .executing incarnation => 4 * incarnation + 1
  | .suspended incarnation _ => 4 * incarnation + 1
  | .executed incarnation => 4 * incarnation + 2
  | .aborting incarnation => 4 * incarnation + 3

section Steps

variable {self self' : Scheduler} {p p' : Pc} {e : Event} {i : TxnIndex}

theorem progress_setStatus (j : TxnIndex) (status : TransactionStatus) :
    ((self.setStatus j status).txnStatus i).progress =
      if i = j then status.progress else (self.txnStatus i).progress := by
  split
  · next h => rw [h, Scheduler.setStatus_self]
  · next h => rw [Scheduler.setStatus_of_ne _ h]

/-- A transaction never goes back, and an execution task or an abort is what takes it one step on. -/
theorem SchedulerStep.progress (h : SchedulerStep self p e self' p') (i : TxnIndex) :
    (self'.txnStatus i).progress = (self.txnStatus i).progress ∧
        (∀ incarnation, e ≠ .executionTask (i, incarnation) ∧ e ≠ .tryAbort (i, incarnation) true) ∨
      (∃ incarnation : ℕ, e = .executionTask (i, incarnation) ∧ (self.txnStatus i).progress = 4 * incarnation ∧
        (self'.txnStatus i).progress = 4 * incarnation + 1) ∨
      (∃ incarnation : ℕ, e = .tryAbort (i, incarnation) true ∧ (self.txnStatus i).progress = 4 * incarnation + 2 ∧
        (self'.txnStatus i).progress = 4 * incarnation + 3) ∨
      (e = .inside ∧ ∃ incarnation : ℕ, (self.txnStatus i).progress = 2 * incarnation + 1 ∧
        (self'.txnStatus i).progress = 2 * incarnation + 2) := by
  have hincarnate : ∀ {j : TxnIndex} {incarnation : Incarnation}, self.tryIncarnate j = some (incarnation, none) →
      (self.txnStatus j).progress = 4 * incarnation := by
    intro j incarnation h
    rw [(Scheduler.tryIncarnate_eq_some.mp h).2]
    rfl
  have htask : ∀ {j : TxnIndex} {incarnation : Incarnation}, self.tryIncarnate j = some (incarnation, none) →
      ((self.setStatus j (.executing incarnation)).txnStatus i).progress = (self.txnStatus i).progress ∧
          (∀ incarnation', Event.executionTask (j, incarnation) ≠ .executionTask (i, incarnation') ∧
            Event.executionTask (j, incarnation) ≠ .tryAbort (i, incarnation') true) ∨
        ∃ incarnation' : ℕ, Event.executionTask (j, incarnation) = .executionTask (i, incarnation') ∧
          (self.txnStatus i).progress = 4 * incarnation' ∧
            ((self.setStatus j (.executing incarnation)).txnStatus i).progress = 4 * incarnation' + 1 := by
    intro j incarnation h
    rw [progress_setStatus]
    by_cases hij : i = j
    · subst hij
      refine Or.inr ⟨incarnation, rfl, hincarnate h, ?_⟩
      rw [if_pos rfl]
      rfl
    · rw [if_neg hij]
      refine Or.inl ⟨rfl, fun incarnation' => ⟨fun heq => hij ?_, nofun⟩⟩
      exact (congrArg Prod.fst (Event.executionTask.inj heq)).symm
  have hsame : ∀ {j : TxnIndex} {status : TransactionStatus}, status.progress = (self.txnStatus j).progress →
      ((self.setStatus j status).txnStatus i).progress = (self.txnStatus i).progress := by
    intro j status heq
    rw [progress_setStatus]
    split
    · next hij => rw [heq, hij]
    · rfl
  cases h with
  | executionTask h => exact (htask h).imp_right Or.inl
  | reincarnated h => exact (htask h).imp_right Or.inl
  | wakeTask h =>
      refine Or.inl ⟨hsame ?_, fun _ => ⟨nofun, nofun⟩⟩
      rw [(Scheduler.tryIncarnate_eq_some.mp h).2]
      rfl
  | reincarnatedWake h =>
      refine Or.inl ⟨hsame ?_, fun _ => ⟨nofun, nofun⟩⟩
      rw [(Scheduler.tryIncarnate_eq_some.mp h).2]
      rfl
  | suspend h =>
      refine Or.inl ⟨hsame ?_, fun _ => ⟨nofun, nofun⟩⟩
      rw [h]
      rfl
  | resume h =>
      refine Or.inl ⟨hsame ?_, fun _ => ⟨nofun, nofun⟩⟩
      rw [h]
      rfl
  | @aborted version h =>
      rw [progress_setStatus]
      by_cases hij : i = version.1
      · subst hij
        refine Or.inr (Or.inr (Or.inl ⟨version.2, rfl, ?_, ?_⟩))
        · rw [h]
          rfl
        · rw [if_pos rfl]
          rfl
      · rw [if_neg hij]
        refine Or.inl ⟨rfl, fun incarnation => ⟨nofun, fun heq => hij ?_⟩⟩
        exact (congrArg Prod.fst (Event.tryAbort.inj heq).1).symm
  | @setExecuted version _ h =>
      rw [progress_setStatus]
      by_cases hij : i = version.1
      · subst hij
        refine Or.inr (Or.inr (Or.inr ⟨rfl, 2 * version.2, ?_, ?_⟩))
        · rw [h, TransactionStatus.progress]
          omega
        · rw [if_pos rfl, TransactionStatus.progress]
          omega
      · rw [if_neg hij]
        exact Or.inl ⟨rfl, fun _ => ⟨nofun, nofun⟩⟩
  | @setAborted version h =>
      rw [progress_setStatus]
      by_cases hij : i = version.1
      · subst hij
        refine Or.inr (Or.inr (Or.inr ⟨rfl, 2 * version.2 + 1, ?_, ?_⟩))
        · rw [h, TransactionStatus.progress]
          omega
        · rw [if_pos rfl, TransactionStatus.progress]
          omega
      · rw [if_neg hij]
        exact Or.inl ⟨rfl, fun _ => ⟨nofun, nofun⟩⟩
  | _ => exact Or.inl ⟨rfl, fun _ => ⟨nofun, nofun⟩⟩

end Steps

section Runs

variable {Thread : Type} [DecidableEq Thread] {n : ℕ} {c : Config Thread Scheduler Pc}
  {trace : List (Thread × Event)}

/-- How often the event occurs in the trace. -/
def occurrences (trace : List (Thread × Event)) (e : Event) : ℕ := (trace.map Prod.snd).count e

omit [DecidableEq Thread] in
theorem occurrences_append (trace : List (Thread × Event)) (t : Thread) (e e' : Event) :
    occurrences (trace ++ [(t, e')]) e = occurrences trace e + if e' = e then 1 else 0 := by
  rw [occurrences, List.map_append, List.count_append]
  simp [occurrences, List.count_singleton]

/-- How often a version was handed out for execution, and aborted, is read off the status. -/
theorem occurrences_of_run (h : Run SchedulerStep (Scheduler.start Thread n) trace c) (i : TxnIndex)
    (incarnation : ℕ) :
    occurrences trace (.executionTask (i, incarnation)) =
        (if 4 * incarnation < (c.shared.txnStatus i).progress then 1 else 0) ∧
      occurrences trace (.tryAbort (i, incarnation) true) =
        if 4 * incarnation + 2 < (c.shared.txnStatus i).progress then 1 else 0 := by
  induction h with
  | start => simp [occurrences, Scheduler.start, Scheduler.new, TransactionStatus.progress]
  | @next trace c c' t e hprev hnext ih =>
      rw [occurrences_append, occurrences_append, ih.1, ih.2]
      rcases hnext.moved.progress i with ⟨heq, hne⟩ | ⟨k, rfl, hbefore, hafter⟩ | ⟨k, rfl, hbefore, hafter⟩ |
        ⟨rfl, k, hbefore, hafter⟩
      · rw [heq, if_neg (hne incarnation).1, if_neg (hne incarnation).2]
        exact ⟨rfl, rfl⟩
      · rw [hbefore, hafter]
        simp only [Event.executionTask.injEq, Prod.mk.injEq, true_and, reduceCtorEq, if_false]
        by_cases hk : k = incarnation
        · subst hk
          simp
        · have hlt := Nat.lt_or_gt_of_ne hk
          rw [if_neg hk]
          constructor <;> split_ifs <;> omega
      · rw [hbefore, hafter]
        simp only [Event.tryAbort.injEq, Prod.mk.injEq, true_and, and_true, reduceCtorEq, if_false]
        by_cases hk : k = incarnation
        · subst hk
          simp
        · have hlt := Nat.lt_or_gt_of_ne hk
          rw [if_neg hk]
          constructor <;> split_ifs <;> omega
      · rw [hbefore, hafter]
        simp only [reduceCtorEq, if_false]
        constructor <;> split_ifs <;> omega

/-- **Every version once.** In every interleaving a version is handed out for execution at most once, aborted at
most once and only after it was handed out, and the next incarnation is handed out only after the abort. -/
theorem versions_once (h : Run SchedulerStep (Scheduler.start Thread n) trace c) (i : TxnIndex)
    (incarnation : ℕ) :
    occurrences trace (.executionTask (i, incarnation)) ≤ 1 ∧
      occurrences trace (.tryAbort (i, incarnation) true) ≤ occurrences trace (.executionTask (i, incarnation)) ∧
      occurrences trace (.executionTask (i, incarnation + 1)) ≤
        occurrences trace (.tryAbort (i, incarnation) true) := by
  rw [(occurrences_of_run h i incarnation).1, (occurrences_of_run h i incarnation).2,
    (occurrences_of_run h i (incarnation + 1)).1]
  refine ⟨?_, ?_, ?_⟩ <;> split_ifs <;> omega

/-- The first task of a block of one transaction. -/
theorem versions_once_first :
    occurrences [((), Event.inside), ((), .inside), ((), .inside), ((), .inside), ((), .inside), ((), .inside),
        ((), .executionTask (0, 0))] (.executionTask (0, 0)) ≤ 1 ∧
      occurrences [((), Event.inside), ((), .inside), ((), .inside), ((), .inside), ((), .inside), ((), .inside),
        ((), .executionTask (0, 0))] (.tryAbort (0, 0) true) ≤
      occurrences [((), Event.inside), ((), .inside), ((), .inside), ((), .inside), ((), .inside), ((), .inside),
        ((), .executionTask (0, 0))] (.executionTask (0, 0)) ∧
      occurrences [((), Event.inside), ((), .inside), ((), .inside), ((), .inside), ((), .inside), ((), .inside),
        ((), .executionTask (0, 0))] (.executionTask (0, 1)) ≤
      occurrences [((), Event.inside), ((), .inside), ((), .inside), ((), .inside), ((), .inside), ((), .inside),
        ((), .executionTask (0, 0))] (.tryAbort (0, 0) true) := by
  have hrun : Run SchedulerStep (Scheduler.start Unit 1) [] _ := .start
  have hrun := hrun.next (.alone (.notDone rfl))
  have hrun := hrun.next (.alone .loadValidationIdx)
  have hrun := hrun.next (.alone (.preferExecution (by decide)))
  have hrun := hrun.next (.alone (.someToExecute (by decide)))
  have hrun := hrun.next (.alone .guardExecute)
  have hrun := hrun.next (.alone .claimExecute)
  have hrun := hrun.next (.alone (.executionTask rfl))
  exact versions_once hrun 0 0

end Runs

section Guarantees

variable {Thread : Type} [DecidableEq Thread] [Fintype Thread] {n : ℕ} {c : Config Thread Scheduler Pc}

/-- **The marker is right.** When the marker is set, or a thread has finished, every transaction is executed, no
thread has a task, and none will get one. -/
theorem done_settled (h : Reachable SchedulerStep (Scheduler.start Thread n) c)
    (hdone : c.shared.doneMarker = true ∨ ∃ t, c.pc t = .finished) : Settled n c := by
  have hwatched := Reachable.watched h
  rcases hdone with hmarker | ⟨t, ht⟩
  · exact hwatched.marked hmarker
  · have hobserved := hwatched.observed t
    rwa [ht] at hobserved

/-- A block of one transaction, executed and validated by one thread. -/
theorem done_settled_one : ∃ c : Config Unit Scheduler Pc, c.pc () = .finished ∧ Settled 1 c := by
  have h : Reachable SchedulerStep (Scheduler.start Unit 1) _ := .refl
  -- the execution
  have h := h.next (.alone (.notDone rfl))
  have h := h.next (.alone .loadValidationIdx)
  have h := h.next (.alone (.preferExecution (by decide)))
  have h := h.next (.alone (.someToExecute (by decide)))
  have h := h.next (.alone .guardExecute)
  have h := h.next (.alone .claimExecute)
  have h := h.next (.alone (.executionTask rfl))
  have h := h.next (.alone (.finishExecution false))
  have h := h.next (.alone (.setExecuted rfl))
  have h := h.next (.alone (.takeDependencies rfl))
  have h := h.next (.alone .noDependencies)
  have h := h.next (.alone (.alreadyLower (by decide)))
  have h := h.next (.alone (.dropGuard (by decide)))
  -- the validation
  have h := h.next (.alone (.notDone rfl))
  have h := h.next (.alone .loadValidationIdx)
  have h := h.next (.alone (.preferValidation (by decide)))
  have h := h.next (.alone (.someToValidate (by decide)))
  have h := h.next (.alone .guardValidate)
  have h := h.next (.alone .claimValidate)
  have h := h.next (.alone (.validationTask rfl))
  have h := h.next (.alone .validated)
  have h := h.next (.alone (.dropGuard (by decide)))
  -- the check that all is done
  have h := h.next (.alone (.notDone rfl))
  have h := h.next (.alone .loadValidationIdx)
  have h := h.next (.alone (.preferExecution (by decide)))
  have h := h.next (.alone (.noneToExecute (by decide)))
  have h := h.next (.alone .checkDone)
  have h := h.next (.alone .checkValidation)
  have h := h.next (.alone .checkExecution)
  have h := h.next (.alone (.noWorkRemaining (by decide)))
  have h := h.next (.alone (.unchanged rfl))
  have h := h.next (.alone .setDone)
  have h := h.next (.alone (.done rfl))
  exact ⟨_, rfl, done_settled h (Or.inr ⟨(), rfl⟩)⟩

/-- **No dependency is lost.** A suspended transaction is recorded with a lower transaction that has not been
executed since, or with a thread that is about to resume it, or is just being recorded. -/
theorem suspended_recorded [Nonempty Thread] (h : Reachable SchedulerStep (Scheduler.start Thread n) c)
    {i : TxnIndex} {incarnation : Incarnation} {condvar : DependencyCondvar}
    (hsuspended : c.shared.txnStatus i = .suspended incarnation condvar) :
    (∃ j < i, i ∈ c.shared.txnDependency j ∧ (¬(c.shared.txnStatus j).Executed ∨ ∃ t, (c.pc t).Takes j)) ∨
      (∃ t, i ∈ (c.pc t).hold.carried) ∨ ∃ t, (c.pc t).hold = .parking (i, incarnation) condvar := by
  exact (Reachable.ordered h).recorded (Reachable.consistent h) hsuspended

/-- The second of two transactions reads what the first may write, while the first is executed. -/
theorem second_suspended : ∃ c : Config Bool Scheduler Pc,
    Reachable SchedulerStep (Scheduler.start Bool 2) c ∧ c.shared.txnStatus 1 = .suspended 0 0 := by
  have h : Reachable SchedulerStep (Scheduler.start Bool 2) _ := .refl
  -- both threads find a transaction to execute, the first claims the first one
  have h := h.next (.step (t := true) (.notDone rfl))
  have h := h.next (.step (t := true) .loadValidationIdx)
  have h := h.next (.step (t := true) (.preferExecution (by decide)))
  have h := h.next (.step (t := true) (.someToExecute (by decide)))
  have h := h.next (.step (t := true) .guardExecute)
  have h := h.next (.step (t := false) (.notDone rfl))
  have h := h.next (.step (t := false) .loadValidationIdx)
  have h := h.next (.step (t := false) (.preferExecution (by decide)))
  have h := h.next (.step (t := false) (.someToExecute (by decide)))
  have h := h.next (.step (t := false) .guardExecute)
  have h := h.next (.step (t := false) .claimExecute)
  have h := h.next (.step (t := false) (.executionTask rfl))
  -- the second thread executes the second one, and is suspended
  have h := h.next (.step (t := true) .claimExecute)
  have h := h.next (.step (t := true) (.executionTask rfl))
  have h := h.next (.step (t := true) (.waitForDependency Nat.zero_lt_one))
  have h := h.next (.step (t := true) (.lockDependency rfl))
  have h := h.next (.step (t := true) (.dependencyOpen rfl))
  have h := h.next (.step (t := true) (.suspend rfl))
  exact ⟨_, h, rfl⟩

theorem suspended_recorded_second : ∃ c : Config Bool Scheduler Pc,
    (∃ j < 1, 1 ∈ c.shared.txnDependency j ∧ (¬(c.shared.txnStatus j).Executed ∨ ∃ t, (c.pc t).Takes j)) ∨
      (∃ t, 1 ∈ (c.pc t).hold.carried) ∨ ∃ t, (c.pc t).hold = .parking (1, 0) 0 := by
  obtain ⟨c, h, hsuspended⟩ := second_suspended
  exact ⟨c, suspended_recorded h hsuspended⟩

/-- The threads can go on while the second transaction is suspended. -/
theorem no_deadlock_second : ∃ c : Config Bool Scheduler Pc, c.shared.txnStatus 1 = .suspended 0 0 ∧
    ((∃ t, Enabled c.shared (c.pc t)) ∨ ∀ t, c.pc t = .finished) := by
  obtain ⟨c, h, hsuspended⟩ := second_suspended
  exact ⟨c, hsuspended, no_deadlock h⟩

end Guarantees

end MoveTutorial.Executor
