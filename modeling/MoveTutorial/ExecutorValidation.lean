import MoveTutorial.ExecutorRuns

/-! Every executed version is valid or will be validated again. A read can become invalid only by a write outside of
the keys of the last incarnation or by an abort, and the thread that does this sends the higher transactions
back to validation before it gives up its task. -/

namespace MoveTutorial.Executor

open Results Interleaving

/-- An update went to a key that the last incarnation did not modify. -/
def Work.updatesOutside {K V E P : Type} : Work K V E P → Bool
  | .applying _ _ _ updatesOutside => updatesOutside
  | .deleting _ _ updatesOutside => updatesOutside
  | .checkIntersection _ updatesOutside => updatesOutside
  | .appending _ updatesOutside _ => updatesOutside
  | .checking _ updatesOutside _ _ => updatesOutside
  | .raising _ updatesOutside => updatesOutside
  | .storeInput _ updatesOutside => updatesOutside
  | .storeOutput _ updatesOutside => updatesOutside
  | .finishing updatesOutside => updatesOutside
  | _ => false

section Definitions

variable {K V E P : Type} [TransactionWrite V] (block : Block K V E P) (state : ExecutorState K V E P)

/-- Every read of the read set is valid now. -/
def ValidNow (n : TxnIndex) (readSet : List (K × ReadKind)) : Prop :=
  ∀ descriptor ∈ readSet, validateRead block.bcs state.versionedDataCache n descriptor = .ok true

/-- What has been validated of the version so far is valid now. -/
def Checking (version : Version) : Work K V E P → Prop
  | .loadReadSet => True
  | .validating readSet =>
      ∃ checked, state.inputs version.1 = some (checked ++ readSet) ∧ ValidNow block state version.1 checked
  | .invalid => True
  | .panicked => True
  | _ => False

/-- The thread validates the version, or will send it back to validation. -/
def Covers (version : Version) : Pc × Work K V E P → Prop
  | (.isExecuted idxToValidate, _) => idxToValidate = version.1
  | (.validating v, work) => v = version ∧ Checking block state version work
  | (.executing v, work) => v.1 < version.1 ∧ work.updatesOutside = true
  | (.setExecuted v revalidateSuffix, _) => v.1 < version.1 ∧ revalidateSuffix = true
  | (.takeDependencies v revalidateSuffix, _) => v = version ∨ v.1 < version.1 ∧ revalidateSuffix = true
  | (.resuming v revalidateSuffix _ _, _) => v = version ∨ v.1 < version.1 ∧ revalidateSuffix = true
  | (.decreaseExecution v revalidateSuffix _, _) => v = version ∨ v.1 < version.1 ∧ revalidateSuffix = true
  | (.countExecution v revalidateSuffix, _) => v = version ∨ v.1 < version.1 ∧ revalidateSuffix = true
  | (.checkRevalidate v revalidateSuffix, _) => v = version ∨ v.1 < version.1 ∧ revalidateSuffix = true
  | (.decreaseValidation targetIdx, _) => targetIdx ≤ version.1
  | (.aborting v, _) => v.1 < version.1
  | (.setAborted v, _) => v.1 < version.1
  | (.decreaseSuffix txnIdx, _) => txnIdx < version.1
  | _ => False

variable {Thread : Type}

/-- The version need not be validated by anyone who does not do it yet. -/
def Attended (version : Version) (c : Config Thread (ExecutorState K V E P) (Pc × Work K V E P)) : Prop :=
  c.shared.scheduler.validationIdx ≤ version.1 ∨
    (∃ readSet, c.shared.inputs version.1 = some readSet ∧ ValidNow block c.shared version.1 readSet) ∨
      ∃ t, Covers block c.shared version (c.pc t)

/-- Every executed version is attended to. -/
def Covered (c : Config Thread (ExecutorState K V E P) (Pc × Work K V E P)) : Prop :=
  ∀ version : Version, version.1 < c.shared.scheduler.numTxns →
    c.shared.scheduler.txnStatus version.1 = .executed version.2 → Attended block version c

end Definitions

section Steps

variable {K V E P : Type} [DecidableEq K] [DecidableEq P] [TransactionWrite V] {block : Block K V E P}
  {log : Log K V} {state state' : ExecutorState K V E P} {version v : Version} {work work' : Work K V E P}
  {scheduler : Scheduler} {p p' : Pc} {e : Event} {i n : TxnIndex}

/-! ### Steps of the scheduler -/

/-- What `validation_idx` passes is validated. -/
theorem SchedulerStep.validationIdx_le {self self' : Scheduler} (h : SchedulerStep self p e self' p')
    (hle : self.validationIdx ≤ i) : self'.validationIdx ≤ i ∨ p' = .isExecuted i := by
  cases h with
  | claimValidate =>
      rcases Nat.eq_or_lt_of_le hle with heq | hlt
      · exact Or.inr (congrArg Pc.isExecuted heq)
      · exact Or.inl hlt
  | decreaseValidation h => exact Or.inl (h.le.trans hle)
  | decreaseSuffix h => exact Or.inl (h.le.trans hle)
  | _ => exact Or.inl hle

omit [DecidableEq K] [DecidableEq P] in
/-- A thread that covers a version goes on to do so, unless the version is valid, or comes to be validated by index. -/
theorem SchedulerStep.covers (h : SchedulerStep state.scheduler p e scheduler p') (hreact : React block e work work')
    (hp' : p' ≠ .failed) (hcovers : Covers block state version (p, work))
    (hexecuted : state.scheduler.txnStatus version.1 = .executed version.2)
    (hexecuted' : scheduler.txnStatus version.1 = .executed version.2) (hlt : version.1 < state.scheduler.numTxns) :
    Covers block state version (p', work') ∨ scheduler.validationIdx ≤ version.1 ∨
      ∃ readSet, state.inputs version.1 = some readSet ∧ ValidNow block state version.1 readSet := by
  cases h with
  | validationTask h =>
      cases hreact
      obtain rfl := hcovers
      have hstatus := (Scheduler.isExecuted_eq_some.mp h).2
      obtain rfl := TransactionStatus.executed.inj (hexecuted.symm.trans hstatus)
      exact Or.inl ⟨rfl, trivial⟩
  | noValidationTask h =>
      obtain rfl := hcovers
      rcases Scheduler.isExecuted_eq_none.mp h with hle | hnot
      · exact absurd hlt (Nat.not_lt.mpr hle)
      · rw [hexecuted] at hnot
        exact absurd trivial hnot
  | validated =>
      cases hreact
      obtain ⟨rfl, checked, hinputs, hvalid⟩ := hcovers
      rw [List.append_nil] at hinputs
      exact Or.inr (Or.inr ⟨checked, hinputs, hvalid⟩)
  | aborted =>
      obtain ⟨rfl, -⟩ := hcovers
      rw [Scheduler.setStatus_self] at hexecuted'
      cases hexecuted'
  | notAborted h =>
      obtain ⟨rfl, -⟩ := hcovers
      exact absurd hexecuted h
  | finishAbort => exact Or.inl hcovers
  | waitForDependency =>
      cases hreact
      cases hcovers.2
  | finishExecution =>
      cases hreact
      exact Or.inl hcovers
  | setExecuted => exact Or.inl (Or.inr hcovers)
  | takeDependencies | resume | noDependencies | someDependencies | decreaseExecution | keepExecution
  | countExecution => exact Or.inl hcovers
  | @alreadyLower v _ h =>
      refine Or.inr (Or.inl ((Nat.not_lt.mp h).trans ?_))
      rcases hcovers with rfl | ⟨hlower, -⟩
      · exact Nat.le_refl _
      · exact hlower.le
  | revalidateSuffix =>
      refine Or.inl ?_
      rcases hcovers with rfl | ⟨hlower, -⟩
      · exact Nat.le_refl _
      · exact hlower.le
  | revalidateSelf =>
      cases hreact
      rcases hcovers with rfl | ⟨-, hfalse⟩
      · exact Or.inl ⟨rfl, trivial⟩
      · cases hfalse
  | decreaseValidation => exact Or.inr (Or.inl hcovers)
  | keepValidation h => exact Or.inr (Or.inl ((Nat.not_lt.mp h).trans hcovers))
  | setAborted => exact Or.inl hcovers
  | decreaseSuffix => exact Or.inr (Or.inl hcovers)
  | keepSuffix h => exact Or.inr (Or.inl ((Nat.not_lt.mp h).trans hcovers))
  | setExecutedFails => exact absurd rfl hp'
  | resumeFails => exact absurd rfl hp'
  | setAbortedFails => exact absurd rfl hp'
  | _ => cases hcovers

/-! ### Steps of the work -/

omit [DecidableEq P] in
/-- An update of a key of the last incarnation replaces an estimate. -/
theorem Applying.estimate {result : ExecuteResult K V E} {left : List K} {old : Finset K} {key : K}
    (h : Applying block log state version result left old) (hmem : key ∈ old) :
    ∃ cell, state.versionedDataCache.entry key version.1 = some ⟨.estimate, cell⟩ := by
  obtain ⟨cell, hcell, -⟩ := h.column.estimated key hmem
  exact ⟨cell, hcell⟩

/-- A step of `execute` keeps the reads that are valid, unless it has written outside. -/
theorem ExecuteStep.reads (h : ExecuteStep block version state work state' work')
    (hwork : Executing block log state version work) {descriptor : K × ReadKind}
    (hvalid : validateRead block.bcs state.versionedDataCache n descriptor = .ok true) :
    validateRead block.bcs state'.versionedDataCache n descriptor = .ok true ∨
      version.1 < n ∧ work'.updatesOutside = true := by
  cases h with
  | @apply result key update updates prevModifiedKeys updatesOutside cache happly =>
      have hsame := (applyUpdate_ok happly).2
      by_cases hmem : key ∈ prevModifiedKeys
      · exact Or.inl (validateRead_kept hsame (Or.inr (Applying.estimate hwork.2 hmem)) hvalid)
      · rcases Nat.lt_or_ge version.1 n with hlt | hle
        · refine Or.inr ⟨hlt, ?_⟩
          rw [Work.updatesOutside, decide_eq_true hmem, Bool.or_true]
        · exact Or.inl (validateRead_kept hsame (Or.inl hle) hvalid)
  | delete hmem hdelete =>
      exact Or.inl (validateRead_kept (delete_ok hdelete).2 (Or.inr (Applying.estimate hwork hmem)) hvalid)
  | @append _ _ access _ => cases access <;> exact Or.inl hvalid
  | _ => exact Or.inl hvalid

theorem ExecuteStep.outside (h : ExecuteStep block version state work state' work') (hwork' : work' ≠ .failed)
    (houtside : work.updatesOutside = true) : work'.updatesOutside = true := by
  cases h with
  | @apply _ key _ _ prevModifiedKeys updatesOutside _ =>
      obtain rfl : updatesOutside = true := houtside
      rfl
  | applyFails => exact absurd rfl hwork'
  | deleteFails => exact absurd rfl hwork'
  | applied | delete | deleted | intersected | notIntersected | append | clash | noClash | raise | appended
  | storeInput | storeOutput => exact houtside
  | _ => cases houtside

omit [DecidableEq P] in
theorem AbortStep.reads (h : AbortStep version state work state' work') (hle : n ≤ version.1)
    {descriptor : K × ReadKind}
    (hvalid : validateRead block.bcs state.versionedDataCache n descriptor = .ok true) :
    validateRead block.bcs state'.versionedDataCache n descriptor = .ok true := by
  cases h with
  | mark hmem hmark =>
      obtain ⟨e, -, -, hsame⟩ := markEstimate_ok hmark
      exact validateRead_kept hsame (Or.inl hle) hvalid
  | _ => exact hvalid

omit [DecidableEq K] [DecidableEq P] in
/-- A step of `validate` goes on with what is checked. -/
theorem ValidateStep.checking (h : ValidateStep block version state work state' work') (hwork' : work' ≠ .failed)
    (hchecking : Checking block state version work) : Checking block state version work' := by
  cases h with
  | loadReadSet h => exact ⟨[], h, fun _ hd => absurd hd List.not_mem_nil⟩
  | noReadSet => exact absurd rfl hwork'
  | @valid descriptor readSet h =>
      obtain ⟨checked, hinputs, hvalid⟩ := hchecking
      refine ⟨checked ++ [descriptor], ?_, ?_⟩
      · rw [List.append_assoc]
        exact hinputs
      · intro d hd
        rcases List.mem_append.mp hd with hd | hd
        · exact hvalid d hd
        · rw [List.mem_singleton.mp hd]
          exact h
  | invalid => trivial
  | dependency => trivial
  | readPanics => trivial

omit [DecidableEq K] [DecidableEq P] in
/-- What a thread covers it covers as long as the reads that are valid stay so. -/
theorem Covers.frame {q : Pc × Work K V E P} (h : Covers block state version q)
    (hinputs : state'.inputs version.1 = state.inputs version.1)
    (hreads : ∀ descriptor, validateRead block.bcs state.versionedDataCache version.1 descriptor = .ok true →
      validateRead block.bcs state'.versionedDataCache version.1 descriptor = .ok true) :
    Covers block state' version q := by
  obtain ⟨p, work⟩ := q
  cases p with
  | validating v =>
      refine ⟨h.1, ?_⟩
      cases work with
      | loadReadSet => trivial
      | validating readSet =>
          obtain ⟨checked, hchecked, hvalid⟩ := h.2
          exact ⟨checked, hinputs.trans hchecked, fun d hd => hreads d (hvalid d hd)⟩
      | invalid => trivial
      | panicked => trivial
      | _ => cases h.2
  | _ => exact h

end Steps

section Runs

variable {K V E P : Type} [DecidableEq K] [DecidableEq P] [TransactionWrite V] {block : Block K V E P}
  {Thread : Type} [DecidableEq Thread] [Fintype Thread]
  {c c' : Config Thread (ExecutorState K V E P) (Pc × Work K V E P)} {t : Thread} {e : Event} {n : ℕ} {log : Log K V}
  {state' : ExecutorState K V E P} {q' : Pc × Work K V E P} {version : Version}

omit [DecidableEq K] [DecidableEq P] [Fintype Thread] in
/-- Valid reads stay valid, or the thread covers the version. -/
theorem Attended.own (h : Attended block version c) (hscheduler : state'.scheduler = c.shared.scheduler)
    (hinputs : state'.inputs version.1 = c.shared.inputs version.1)
    (hreads : ∀ descriptor, validateRead block.bcs c.shared.versionedDataCache version.1 descriptor = .ok true →
      validateRead block.bcs state'.versionedDataCache version.1 descriptor = .ok true ∨ Covers block state' version q')
    (hcovers : Covers block c.shared version (c.pc t) → Covers block state' version q') :
    Attended block version ⟨state', Function.update c.pc t q'⟩ := by
  by_cases hq : Covers block state' version q'
  · refine Or.inr (Or.inr ⟨t, ?_⟩)
    dsimp only
    rwa [Function.update_self]
  · have hkept := fun descriptor hvalid => (hreads descriptor hvalid).resolve_right hq
    rcases h with hle | ⟨readSet, hreadSet, hvalid⟩ | ⟨t', ht'⟩
    · refine Or.inl ?_
      dsimp only
      rw [hscheduler]
      exact hle
    · exact Or.inr (Or.inl ⟨readSet, hinputs.trans hreadSet, fun d hd => hkept d (hvalid d hd)⟩)
    · have hne : t' ≠ t := fun heq => hq (hcovers (heq ▸ ht'))
      refine Or.inr (Or.inr ⟨t', ?_⟩)
      dsimp only
      rw [Function.update_of_ne hne]
      exact ht'.frame hinputs hkept

/-- A thread works on other transactions than those that are executed. -/
theorem ne_of_busy {self : Scheduler} {i : TxnIndex} (hbusy : ¬(self.txnStatus i).Free)
    (hexecuted : self.txnStatus version.1 = .executed version.2) : version.1 ≠ i := by
  intro heq
  rw [← heq, hexecuted] at hbusy
  exact hbusy trivial

omit [DecidableEq K] [DecidableEq P] [Fintype Thread] in
/-- A step of the scheduler. -/
theorem Covered.scheduler {scheduler : Scheduler} {p p' : Pc} {work work' : Work K V E P} (h : Covered block c)
    (hpc : c.pc t = (p, work)) (hstep : SchedulerStep c.shared.scheduler p e scheduler p')
    (hreact : React block e work work') (hp' : p' ≠ .failed) :
    Covered block ⟨{ c.shared with scheduler := scheduler }, Function.update c.pc t (p', work')⟩ := by
  intro version hlt hexecuted
  have hcovered : Covers block c.shared version (p', work') →
      Attended block version ⟨{ c.shared with scheduler := scheduler }, Function.update c.pc t (p', work')⟩ := by
    intro hcovers
    refine Or.inr (Or.inr ⟨t, ?_⟩)
    dsimp only
    rw [Function.update_self]
    exact hcovers.frame rfl fun _ => id
  dsimp only at hlt hexecuted
  have hfree : (scheduler.txnStatus version.1).Free := by
    rw [hexecuted]
    trivial
  rw [hstep.numTxns] at hlt
  rcases hstep.free hfree with heq | ⟨incarnation, revalidateSuffix, rfl, hexecuted'⟩ | ⟨incarnation, -, hready⟩
  · have hbefore := heq.symm.trans hexecuted
    rcases h version hlt hbefore with hle | hvalid | ⟨t', ht'⟩
    · rcases hstep.validationIdx_le hle with hle' | rfl
      · exact Or.inl hle'
      · exact hcovered rfl
    · exact Or.inr (Or.inl hvalid)
    · by_cases hne : t' = t
      · rw [hne, hpc] at ht'
        rcases hstep.covers hreact hp' ht' hbefore hexecuted hlt with hcovers | hle | hvalid
        · exact hcovered hcovers
        · exact Or.inl hle
        · exact Or.inr (Or.inl hvalid)
      · refine Or.inr (Or.inr ⟨t', ?_⟩)
        dsimp only
        rw [Function.update_of_ne hne]
        exact ht'.frame rfl fun _ => id
  · obtain ⟨i, incarnation'⟩ := version
    obtain rfl := TransactionStatus.executed.inj (hexecuted.symm.trans hexecuted')
    cases hstep with
    | setExecuted => exact hcovered (Or.inl rfl)
    | setExecutedFails => exact absurd rfl hp'
  · cases hexecuted.symm.trans hready

/-- **Nothing that became invalid is missed.** -/
theorem Covered.next (h : Covered block c) (haccounted : Accounted block log c)
    (hcons : Consistent n (c.map ExecutorState.scheduler Prod.fst)) (hsound : (c'.pc t).1 ≠ .failed)
    (hsound' : (c'.pc t).2 ≠ .failed) (hnext : Next (ExecutorStep block) t e c c') : Covered block c' := by
  obtain ⟨hstep⟩ := hnext
  have htask := haccounted.task t
  rename_i shared shared' pc q'
  dsimp only at hsound hsound' htask
  rw [Function.update_self] at hsound hsound'
  generalize hpc : pc t = q at hstep htask
  cases hstep with
  | scheduler hstep hreact => exact h.scheduler hpc hstep hreact hsound
  | @execute _ v _ _ hstep =>
      obtain ⟨log', hadvance, -⟩ := hstep.executing htask haccounted.written
      obtain ⟨hbusy, -⟩ := owner_alone hcons hpc rfl
      intro version hlt hexecuted
      dsimp only at hlt hexecuted
      rw [hstep.scheduler] at hlt hexecuted
      have hne := ne_of_busy hbusy hexecuted
      apply (h version hlt hexecuted).own (t := t) hstep.scheduler (hadvance.others _ hne).inputs
      · exact fun descriptor hvalid => hstep.reads htask hvalid
      · dsimp only
        rw [hpc]
        intro hcovers
        exact ⟨hcovers.1, hstep.outside hsound' hcovers.2⟩
  | @validate _ v _ _ hstep =>
      have hsame := hstep.same
      rw [hsame]
      intro version hlt hexecuted
      apply (h version hlt hexecuted).own (t := t) rfl rfl fun _ => Or.inl
      dsimp only
      rw [hpc]
      rintro ⟨rfl, hchecking⟩
      exact ⟨rfl, hstep.checking hsound' hchecking⟩
  | @abort _ v _ _ hstep =>
      obtain ⟨hadvance, -⟩ := hstep.aborting htask haccounted.written
      obtain ⟨hbusy, -⟩ := owner_alone hcons hpc rfl
      intro version hlt hexecuted
      dsimp only at hlt hexecuted
      rw [hstep.scheduler] at hlt hexecuted
      have hne := ne_of_busy hbusy hexecuted
      apply (h version hlt hexecuted).own (t := t) hstep.scheduler (hadvance.others _ hne).inputs
      · intro descriptor hvalid
        rcases Nat.lt_or_gt_of_ne hne with hlower | hhigher
        · exact Or.inl (hstep.reads hlower.le hvalid)
        · exact Or.inr hhigher
      · dsimp only
        rw [hpc]
        exact id

end Runs

end MoveTutorial.Executor
