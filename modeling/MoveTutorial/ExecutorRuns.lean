import MoveTutorial.ExecutorWork

/-! Runs of the executor. What is seen of the scheduler in a run of the executor is a run of the scheduler, so that
what holds of the scheduler holds here; and what the recorded data says is kept in every interleaving. -/

namespace MoveTutorial.Executor

open Results Interleaving

section Scheduler

variable {self self' : Scheduler} {p p' : Pc} {e : Event} {i : TxnIndex}

theorem free_of_setStatus {j : TxnIndex} {status : TransactionStatus}
    (h : ((self.setStatus j status).txnStatus i).Free) :
    (self.setStatus j status).txnStatus i = self.txnStatus i ∨
      i = j ∧ status.Free ∧ (self.setStatus j status).txnStatus i = status := by
  by_cases hij : i = j
  · refine Or.inr ?_
    rw [hij, Scheduler.setStatus_self] at h ⊢
    exact ⟨rfl, h, rfl⟩
  · exact Or.inl (Scheduler.setStatus_of_ne _ hij _)

/-- A transaction becomes free only by the thread that executed or aborted it. -/
theorem SchedulerStep.free (h : SchedulerStep self p e self' p') (hfree : (self'.txnStatus i).Free) :
    self'.txnStatus i = self.txnStatus i ∨
      (∃ incarnation revalidateSuffix, p = .setExecuted (i, incarnation) revalidateSuffix ∧
        self'.txnStatus i = .executed incarnation) ∨
      ∃ incarnation, p = .setAborted (i, incarnation) ∧ self'.txnStatus i = .readyToExecute (incarnation + 1) none := by
  have hbusy : ∀ {j : TxnIndex} {status : TransactionStatus}, ¬status.Free →
      ((self.setStatus j status).txnStatus i).Free →
        (self.setStatus j status).txnStatus i = self.txnStatus i := by
    intro j status hnot hstatus
    exact (free_of_setStatus hstatus).resolve_right fun h => hnot h.2.1
  cases h with
  | executionTask => exact Or.inl (hbusy id hfree)
  | wakeTask => exact Or.inl (hbusy id hfree)
  | aborted => exact Or.inl (hbusy id hfree)
  | suspend => exact Or.inl (hbusy id hfree)
  | resume => exact Or.inl (hbusy id hfree)
  | reincarnated => exact Or.inl (hbusy id hfree)
  | reincarnatedWake => exact Or.inl (hbusy id hfree)
  | setExecuted =>
      rcases free_of_setStatus hfree with hsame | ⟨rfl, -, hstatus⟩
      · exact Or.inl hsame
      · exact Or.inr (Or.inl ⟨_, _, rfl, hstatus⟩)
  | setAborted =>
      rcases free_of_setStatus hfree with hsame | ⟨rfl, -, hstatus⟩
      · exact Or.inl hsame
      · exact Or.inr (Or.inr ⟨_, rfl, hstatus⟩)
  | _ => exact Or.inl rfl

theorem SchedulerStep.progress_le (h : SchedulerStep self p e self' p') (i : TxnIndex) :
    (self.txnStatus i).progress ≤ (self'.txnStatus i).progress := by
  rcases h.progress i with ⟨heq, -⟩ | ⟨incarnation, -, hbefore, hafter⟩ | ⟨incarnation, -, hbefore, hafter⟩ |
    ⟨-, incarnation, hbefore, hafter⟩ <;> omega

end Scheduler

variable {K V E P : Type} [DecidableEq K] [DecidableEq P] [TransactionWrite V] {block : Block K V E P}
  {state state' : ExecutorState K V E P} {q q' : Pc × Work K V E P} {e : Event}

/-! ### What is seen of the scheduler -/

theorem ExecuteStep.scheduler {version : Version} {work work' : Work K V E P}
    (h : ExecuteStep block version state work state' work') : state'.scheduler = state.scheduler := by
  cases h with
  | @append _ _ access _ => cases access <;> rfl
  | _ => rfl

omit [DecidableEq K] [DecidableEq P] in
theorem ValidateStep.same {version : Version} {work work' : Work K V E P}
    (h : ValidateStep block version state work state' work') : state' = state := by
  cases h <;> rfl

omit [DecidableEq P] [TransactionWrite V] in
theorem AbortStep.scheduler {version : Version} {work work' : Work K V E P}
    (h : AbortStep version state work state' work') : state'.scheduler = state.scheduler := by
  cases h <;> rfl

theorem ExecutorStep.seen (h : ExecutorStep block state q e state' q') :
    SchedulerStep state.scheduler q.1 e state'.scheduler q'.1 ∨
      state'.scheduler = state.scheduler ∧ q'.1 = q.1 := by
  cases h with
  | scheduler h => exact Or.inl h
  | execute h => exact Or.inr ⟨h.scheduler, rfl⟩
  | validate h => exact Or.inr ⟨congrArg ExecutorState.scheduler h.same, rfl⟩
  | abort h => exact Or.inr ⟨h.scheduler, rfl⟩

variable {Thread : Type} [DecidableEq Thread] {c c' : Config Thread (ExecutorState K V E P) (Pc × Work K V E P)}
  {t : Thread}

theorem Reachable.seen (h : Reachable (ExecutorStep block) (block.start Thread) c) :
    Reachable SchedulerStep (Scheduler.start Thread block.numTxns) (c.map ExecutorState.scheduler Prod.fst) :=
  Reachable.map h ExecutorStep.seen

/-! ### The recorded data in every interleaving -/

section Tasks

variable {log : Log K V} {scheduler : Scheduler} {p p' : Pc} {work work' : Work K V E P}

omit [DecidableEq K] [DecidableEq P] [TransactionWrite V] in
theorem sameAt_scheduler (i : TxnIndex) : SameAt log log state { state with scheduler := scheduler } i :=
  ⟨fun _ => rfl, rfl, rfl, fun _ _ => rfl⟩

omit [DecidableEq P] in
theorem Aborted.running {version : Version} (h : Aborted log state version) :
    Executing block log state version (.running (block.program version.1) []) := by
  refine ⟨h, [], fun _ hr => absurd hr List.not_mem_nil, ?_⟩
  intro rest status hrest
  exact hrest

omit [DecidableEq P] in
/-- A step of the scheduler keeps what is true of the data that its thread works on. -/
theorem SchedulerStep.task (h : SchedulerStep state.scheduler p e scheduler p') (hreact : React block e work work')
    (hp' : p' ≠ .failed) (htask : Task block log state (p, work))
    (hready : ∀ version : Version, state.scheduler.txnStatus version.1 = .readyToExecute version.2 none →
      Aborted log state version)
    (hexecuted : ∀ version : Version, state.scheduler.txnStatus version.1 = .executed version.2 →
      Complete block log state version) :
    Task block log { state with scheduler := scheduler } (p', work') := by
  have hsame : ∀ i, SameAt log log state { state with scheduler := scheduler } i := sameAt_scheduler
  have hpast : ∀ version, Past state version → Past { state with scheduler := scheduler } version :=
    fun version hpast => ⟨hpast.1.trans (h.progress_le version.1), hpast.2⟩
  have hwaiting : ∀ {version}, Waiting block log state version work →
      Waiting block log { state with scheduler := scheduler } version work :=
    fun hwait => hwait.frame log.extends_refl (hsame _)
  have htasked : ∀ version : Version, state.scheduler.tryIncarnate version.1 = some (version.2, none) →
      Executing block log { state with scheduler := scheduler } version (.running (block.program version.1) []) :=
    fun _ hincarnate => ((hready _ (Scheduler.tryIncarnate_eq_some.mp hincarnate).2).frame (hsame _)).running
  have hrepeat : ∀ {version : Version}, Waiting block log state version work → React block .repeatRead work work' →
      Executing block log { state with scheduler := scheduler } version work' := by
    intro version hwait hreact
    cases hreact
    have hexecuting : Executing block log state version (.blocked _ _ _) := hwait
    exact ⟨hexecuting.2.1.frame (hsame _), hexecuting.2.2⟩
  cases h with
  | @validationTask idxToValidate incarnation h =>
      cases hreact
      have hstatus := (Scheduler.isExecuted_eq_some.mp h).2
      refine ⟨⟨?_, (hexecuted (idxToValidate, incarnation) hstatus).inputs⟩, trivial⟩
      dsimp only
      rw [hstatus]
      exact Nat.le_refl _
  | @executionTask idxToExecute incarnation h =>
      cases hreact
      exact htasked (idxToExecute, incarnation) h
  | @reincarnated txnIdx incarnation h =>
      cases hreact
      exact htasked (txnIdx, incarnation) h
  | aborted h =>
      cases hreact
      exact (hexecuted _ h).frame log.extends_refl (hsame _)
  | finishAbort =>
      cases hreact
      exact ⟨rfl, (Marking.aborted htask).frame (hsame _)⟩
  | waitForDependency =>
      cases hreact
      have hexecuting : Executing block log state _ (.blocked _ _ _) := htask
      exact hexecuting.frame log.extends_refl (hsame _)
  | finishExecution =>
      cases hreact
      exact ⟨rfl, Complete.frame htask log.extends_refl (hsame _)⟩
  | lockDependency | dependencyOpen | suspend | push =>
      cases hreact
      exact hwaiting htask
  | dependencyResolved | wake => exact hrepeat htask hreact
  | setExecuted =>
      cases hreact
      refine ⟨htask.1, ?_, htask.2.inputs⟩
      dsimp only
      rw [Scheduler.setStatus_self]
      exact Nat.le_refl _
  | takeDependencies | resume | noDependencies | someDependencies | decreaseExecution | keepExecution
  | countExecution =>
      cases hreact
      exact ⟨htask.1, hpast _ htask.2⟩
  | revalidateSelf =>
      cases hreact
      exact ⟨hpast _ htask.2, trivial⟩
  | alreadyLower | revalidateSuffix | setAborted =>
      cases hreact
      exact htask.1
  | validated | notAborted =>
      cases hreact
      rfl
  | dropGuardFails => exact absurd rfl hp'
  | suspendFails => exact absurd rfl hp'
  | setExecutedFails => exact absurd rfl hp'
  | resumeFails => exact absurd rfl hp'
  | setAbortedFails => exact absurd rfl hp'
  | _ =>
      cases hreact
      exact htask

end Tasks

section Runs

variable [Fintype Thread] {n : ℕ} {log log' : Log K V}

omit [DecidableEq P] in
/-- A step of the scheduler. -/
theorem Accounted.scheduler {scheduler : Scheduler} {p p' : Pc} {work work' : Work K V E P}
    (h : Accounted block log c) (hcons : Consistent n (c.map ExecutorState.scheduler Prod.fst))
    (hpc : c.pc t = (p, work)) (hstep : SchedulerStep c.shared.scheduler p e scheduler p')
    (hreact : React block e work work') (hp' : p' ≠ .failed) :
    Accounted block log ⟨{ c.shared with scheduler := scheduler }, Function.update c.pc t (p', work')⟩ := by
  have htask := h.task t
  rw [hpc] at htask
  have hsame : ∀ i, SameAt log log c.shared { c.shared with scheduler := scheduler } i := sameAt_scheduler
  refine ⟨h.written, ?_, ?_, ?_⟩
  · intro version hready
    have hfree : (scheduler.txnStatus version.1).Free := by
      rw [show scheduler.txnStatus version.1 = _ from hready]
      trivial
    rcases hstep.free hfree with heq | ⟨incarnation, revalidateSuffix, -, hexecuted⟩ | ⟨incarnation, rfl, hready'⟩
    · exact (h.ready version (heq.symm.trans hready)).frame (hsame _)
    · cases hready.symm.trans hexecuted
    · obtain ⟨i, incarnation'⟩ := version
      obtain ⟨rfl, -⟩ := TransactionStatus.readyToExecute.inj (hready.symm.trans hready')
      exact Aborted.frame htask.2 (hsame _)
  · intro version hexecuted
    have hfree : (scheduler.txnStatus version.1).Free := by
      rw [show scheduler.txnStatus version.1 = _ from hexecuted]
      trivial
    rcases hstep.free hfree with heq | ⟨incarnation, revalidateSuffix, rfl, hexecuted'⟩ | ⟨incarnation, -, hready⟩
    · exact (h.executed version (heq.symm.trans hexecuted)).frame log.extends_refl (hsame _)
    · obtain ⟨i, incarnation'⟩ := version
      obtain rfl := TransactionStatus.executed.inj (hexecuted.symm.trans hexecuted')
      exact htask.2.frame log.extends_refl (hsame _)
    · cases hexecuted.symm.trans hready
  · rw [Function.forall_update_iff (p := fun _ q => Task block log { c.shared with scheduler := scheduler } q)]
    refine ⟨hstep.task hreact hp' htask h.ready h.executed, ?_⟩
    intro t' ht'
    refine (h.task t').frame log.extends_refl (fun i _ => hsame i) ?_ ?_
    · intro version hpast
      exact ⟨hpast.1.trans (hstep.progress_le version.1), hpast.2⟩
    · intro version hpast hexecuted
      refine ⟨?_, rfl⟩
      have hfree : (scheduler.txnStatus version.1).Free := by
        rw [show scheduler.txnStatus version.1 = _ from hexecuted]
        trivial
      rcases hstep.free hfree with heq | ⟨incarnation, revalidateSuffix, rfl, hexecuted'⟩ | ⟨incarnation, -, hready⟩
      · exact heq.symm.trans hexecuted
      · -- a version that was executed before is not executed again
        have hfits := hcons.protocol.owned.fits t version.1 (by simp [Config.map, hpc, Pc.hold, Hold.owned])
        have hexecuting : c.shared.scheduler.txnStatus version.1 = .executing incarnation := by
          simpa [Config.map, hpc, Pc.hold, Hold.Fits, Scheduler.board] using hfits
        obtain rfl := TransactionStatus.executed.inj (hexecuted.symm.trans hexecuted')
        have hle := hpast.1
        rw [hexecuting, TransactionStatus.progress] at hle
        exact absurd hle (Nat.not_succ_le_self _)
      · cases hexecuted.symm.trans hready

omit [DecidableEq P] [Fintype Thread] in
/-- A step of the thread that owns the transaction. -/
theorem Accounted.own {i : TxnIndex} (h : Accounted block log c) (hadvance : Advance log log' c.shared state' i)
    (hbusy : ¬(c.shared.scheduler.txnStatus i).Free) (hothers : ∀ t' ≠ t, (c.pc t').1.hold.owned ≠ some i)
    (htask : Task block log' state' q') : Accounted block log' ⟨state', Function.update c.pc t q'⟩ := by
  have hother : ∀ version : Version, (c.shared.scheduler.txnStatus version.1).Free → version.1 ≠ i := by
    intro version hfree heq
    rw [heq] at hfree
    exact hbusy hfree
  refine ⟨hadvance.written, ?_, ?_, ?_⟩
  · intro version hready
    dsimp only at hready
    rw [hadvance.scheduler] at hready
    refine (h.ready version hready).frame (hadvance.others _ (hother version ?_))
    rw [hready]
    trivial
  · intro version hexecuted
    dsimp only at hexecuted
    rw [hadvance.scheduler] at hexecuted
    refine (h.executed version hexecuted).frame hadvance.extend (hadvance.others _ (hother version ?_))
    rw [hexecuted]
    trivial
  · rw [Function.forall_update_iff (p := fun _ q => Task block log' state' q)]
    refine ⟨htask, ?_⟩
    intro t' ht'
    refine (h.task t').frame hadvance.extend ?_ ?_ ?_
    · intro j hj
      exact hadvance.others j fun heq => hothers t' ht' (heq ▸ hj)
    · intro version hpast
      refine ⟨by rw [hadvance.scheduler]; exact hpast.1, ?_⟩
      by_cases heq : version.1 = i
      · have hinputs := hpast.2
        rw [heq] at hinputs ⊢
        exact hadvance.inputs hinputs
      · rw [(hadvance.others _ heq).inputs]
        exact hpast.2
    · intro version hpast hexecuted
      rw [hadvance.scheduler] at hexecuted
      refine ⟨hexecuted, (hadvance.others _ (hother version ?_)).inputs⟩
      rw [hexecuted]
      trivial

omit [DecidableEq K] [DecidableEq P] [TransactionWrite V] [DecidableEq Thread] in
/-- A thread that owns a transaction is the only one, and the transaction is not free. -/
theorem owner_alone {p : Pc} {i : TxnIndex} {work : Work K V E P}
    (hcons : Consistent n (c.map ExecutorState.scheduler Prod.fst)) (hpc : c.pc t = (p, work))
    (hown : p.hold.owned = some i) :
    ¬(c.shared.scheduler.txnStatus i).Free ∧ ∀ t' ≠ t, (c.pc t').1.hold.owned ≠ some i := by
  have howned : ((c.pc t).1.hold).owned = some i := by
    rw [hpc]
    exact hown
  constructor
  · exact (hcons.protocol.owned.fits t i howned).not_free howned
  · intro t' hne ht'
    exact hne (hcons.protocol.owned.exclusive t' t i ht' howned)

/-- **The record is kept.** Whatever a thread does, there is an account of what was written so far. -/
theorem Accounted.next (h : Accounted block log c) (hcons : Consistent n (c.map ExecutorState.scheduler Prod.fst))
    (hsound : (c'.pc t).1 ≠ .failed) (hnext : Next (ExecutorStep block) t e c c') :
    ∃ log', Accounted block log' c' := by
  obtain ⟨hstep⟩ := hnext
  have htask := h.task t
  rename_i shared shared' pc q'
  dsimp only at hsound htask
  rw [Function.update_self] at hsound
  generalize hpc : pc t = q at hstep htask
  cases hstep with
  | scheduler hstep hreact => exact ⟨log, h.scheduler hcons hpc hstep hreact hsound⟩
  | execute hstep =>
      obtain ⟨log', hadvance, hexecuting⟩ := hstep.executing htask h.written
      obtain ⟨hbusy, hothers⟩ := owner_alone hcons hpc rfl
      exact ⟨log', h.own hadvance hbusy hothers hexecuting⟩
  | validate hstep =>
      obtain ⟨hsame, hvalidating⟩ := hstep.validating htask.2 htask.1.2
      rw [hsame]
      refine ⟨log, h.written, h.ready, h.executed, ?_⟩
      rw [Function.forall_update_iff (p := fun _ q => Task block log shared q)]
      exact ⟨⟨htask.1, hvalidating⟩, fun t' _ => h.task t'⟩
  | abort hstep =>
      obtain ⟨hadvance, haborting⟩ := hstep.aborting htask h.written
      obtain ⟨hbusy, hothers⟩ := owner_alone hcons hpc rfl
      exact ⟨log, h.own hadvance hbusy hothers haborting⟩

omit [DecidableEq Thread] [Fintype Thread] [DecidableEq P] in
theorem accounted_start : Accounted block (fun _ _ => none) (block.start Thread) := by
  refine ⟨?_, ?_, ?_, fun _ => rfl⟩
  · intro key i flag incarnation data hentry
    cases hentry
  · intro version hready
    refine ⟨⟨nofun, ?_, fun _ _ _ => rfl⟩, fun _ _ _ => rfl⟩
    intro key hkey
    exact absurd hkey (Finset.notMem_empty key)
  · intro version hexecuted
    cases hexecuted

theorem Reachable.accounted (h : Reachable (ExecutorStep block) (block.start Thread) c) :
    ∃ log, Accounted block log c := by
  apply Reachable.invariant h ⟨_, accounted_start⟩
  intro c c' t e hreach hinv hnext
  obtain ⟨log, hinv⟩ := hinv
  exact hinv.next (Reachable.consistent (Reachable.seen hreach))
    ((Reachable.consistent (Reachable.seen (hreach.next hnext))).sound t) hnext

omit [DecidableEq P] in
/-- No assertion of the work has failed. -/
theorem Task.not_failed (h : Task block log state q) : q.2 ≠ .failed := by
  intro hfailed
  obtain ⟨p, work⟩ := q
  obtain rfl : work = .failed := hfailed
  cases p with
  | executing | lockDependency | checkDependency | suspending | pushing | waiting | aborting => exact h
  | setExecuted | takeDependencies | resuming | decreaseExecution | countExecution | checkRevalidate | setAborted =>
      cases h.1
  | validating => exact h.2
  | _ => cases h

/-- **No assertion fails in the executor.** However the threads interleave, `add_write` never replaces a write that is
not of an earlier incarnation, `mark_estimate` and `delete` find what they look for, a read set is recorded
when a version is validated, and no assertion of the scheduler fails. -/
theorem executor_assertions_hold (h : Reachable (ExecutorStep block) (block.start Thread) c) :
    ∀ t, (c.pc t).1 ≠ .failed ∧ (c.pc t).2 ≠ .failed := by
  intro t
  obtain ⟨log, haccounted⟩ := Reachable.accounted h
  exact ⟨(Reachable.consistent (Reachable.seen h)).sound t, (haccounted.task t).not_failed⟩

end Runs

/-- A transaction that reads the only key and adds three to what is stored there. -/
def addThree : Block Unit WriteOp Empty Unit where
  bcs := .u128
  numTxns := 1
  program _ := .read () fun _ => .ret (.success ⟨[], [((), ⟨3, 0, 10, .plus 3⟩)], List.nodup_singleton _⟩)
  storage _ := some (Bcs.u128.toBytes 5)
  modulePath _ := none

/-- One thread has executed the transaction and written its delta. -/
theorem executor_assertions_hold_one :
    ∃ c : Config Unit (ExecutorState Unit WriteOp Empty Unit) (Pc × Work Unit WriteOp Empty Unit),
      (∃ status, c.shared.outputs 0 = some status) ∧ (c.shared.versionedDataCache.entry () 0).isSome ∧
        ∀ t, (c.pc t).1 ≠ .failed ∧ (c.pc t).2 ≠ .failed := by
  have h : Reachable (ExecutorStep addThree) (addThree.start Unit) _ := .refl
  have h := h.next (.alone (.scheduler (.notDone rfl) .inside))
  have h := h.next (.alone (.scheduler .loadValidationIdx .inside))
  have h := h.next (.alone (.scheduler (.preferExecution (by decide)) .inside))
  have h := h.next (.alone (.scheduler (.someToExecute (by decide)) .inside))
  have h := h.next (.alone (.scheduler .guardExecute .inside))
  have h := h.next (.alone (.scheduler .claimExecute .inside))
  have h := h.next (.alone (.scheduler (.executionTask rfl) .executionTask))
  have h := h.next (.alone (.execute (.read (show MVHashMap.read _ _ _ _ = .ok (.error .notFound) from rfl) rfl)))
  have h := h.next (.alone (.execute .return))
  have h := h.next (.alone (.execute .loadModified))
  have h := h.next (.alone (.execute (.apply rfl)))
  have h := h.next (.alone (.execute .applied))
  have h := h.next (.alone (.execute .deleted))
  have h := h.next (.alone (.execute (.notIntersected rfl)))
  have h := h.next (.alone (.execute .appended))
  have h := h.next (.alone (.execute .storeInput))
  have h := h.next (.alone (.execute .storeOutput))
  exact ⟨_, ⟨_, rfl⟩, rfl, executor_assertions_hold h⟩

end MoveTutorial.Executor
