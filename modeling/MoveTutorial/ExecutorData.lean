import MoveTutorial.MultiVersionEntries

/-! What the recorded data says. The entries of a transaction follow its status: those of an incarnation that is
executed are complete and are what was recorded, and those of an aborted one are estimates until the next
incarnation has entered its own. It follows that no assertion of the map fails. -/

namespace MoveTutorial.Executor

open Results Interleaving

variable {K V E P : Type}

/-- What the versions wrote under the keys so far. -/
abbrev Log (K V : Type) := K → Version → Option V

def Log.Extends (log' log : Log K V) : Prop := ∀ key version data, log key version = some data → log' key version = some data

/-- The incarnation and the later ones of the transaction wrote nothing. -/
def Log.Unwritten (log : Log K V) (version : Version) : Prop :=
  ∀ key incarnation, version.2 ≤ incarnation → log key (version.1, incarnation) = none

/-- The data of a read is what the version wrote. -/
def Log.Shows (log : Log K V) (key : K) (outcome : ReadOutcome V) : Prop :=
  ∀ version data, outcome = .ok (.version version data) → log key version = some data

/-- The writes that are in the map are in the log. -/
def Written (log : Log K V) (m : MVHashMap K V) : Prop :=
  ∀ key i flag incarnation data, m.entry key i = some ⟨flag, .write incarnation data⟩ →
    log key (i, incarnation) = some data

/-- The reads have their descriptors in the read set. -/
def Captured (log : Log K V) (readSet : List (K × ReadKind)) (reads : List (K × ReadOutcome V)) : Prop :=
  ∀ r ∈ reads, log.Shows r.1 r.2 ∧ ∃ kind, ReadKind.ofOutcome r.2 = some kind ∧ (r.1, kind) ∈ readSet

/-- The entries of a transaction: those under fresh keys are complete, those under old keys are estimates. -/
structure Column (m : MVHashMap K V) (version : Version) (fresh : K → Option (Update V)) (old : Finset K)
    (bound : Incarnation) : Prop where
  entered : ∀ key update, fresh key = some update → m.entry key version.1 = some ⟨.done, update.cell version.2⟩
  estimated : ∀ key ∈ old, ∃ cell, m.entry key version.1 = some ⟨.estimate, cell⟩ ∧ cell.Before bound
  untouched : ∀ key ∉ old, fresh key = none → m.entry key version.1 = none

section Entries

variable [DecidableEq K] (log : Log K V) (state : ExecutorState K V E P)

/-- The version has entered nothing yet, and all entries of earlier incarnations are estimates. -/
structure Aborted (version : Version) : Prop where
  column : Column state.versionedDataCache version (fun _ => none) (state.modifiedKeys version.1) version.2
  unwritten : log.Unwritten version

/-- What is true while the entries of a version are marked. -/
structure Marking (version : Version) (keys : Finset K) : Prop where
  subset : keys ⊆ state.modifiedKeys version.1
  column : ∃ fresh : K → Option (Update V), (∀ key, fresh key = none ↔ key ∉ keys) ∧
    Column state.versionedDataCache version fresh (state.modifiedKeys version.1 \ keys) (version.2 + 1)
  unwritten : log.Unwritten (version.1, version.2 + 1)

/-- The version was executed, now or earlier. -/
def Past (version : Version) : Prop :=
  4 * version.2 + 2 ≤ (state.scheduler.txnStatus version.1).progress ∧ state.inputs version.1 ≠ none

/-- What is true while a version is validated. -/
def Validating (version : Version) : Work K V E P → Prop
  | .loadReadSet => True
  | .validating readSet => state.scheduler.txnStatus version.1 = .executed version.2 →
      ∃ checked, state.inputs version.1 = some (checked ++ readSet)
  | .invalid => True
  | .panicked => True
  | _ => False

end Entries

section Definitions

variable [DecidableEq K] [TransactionWrite V] (block : Block K V E P) (log : Log K V) (state : ExecutorState K V E P)

/-- The transaction returned the status after it captured the reads. -/
def Recorded (txnIdx : TxnIndex) (readSet : List (K × ReadKind))
    (status : ExecutionStatus (TransactionOutput K V) E) : Prop :=
  ∃ reads, Captured log readSet reads ∧ Captures block.bcs block.storage (block.program txnIdx) reads status

/-- The transaction has come to this program after it captured the reads. -/
def Reached (txnIdx : TxnIndex) (readSet : List (K × ReadKind))
    (program : Program K (ExecutionStatus (TransactionOutput K V) E)) : Prop :=
  ∃ reads, Captured log readSet reads ∧ ∀ rest status, Captures block.bcs block.storage program rest status →
    Captures block.bcs block.storage (block.program txnIdx) (reads ++ rest) status

/-- The version is executed, and the map holds what it returned. -/
structure Complete (version : Version) : Prop where
  recorded : ∃ status readSet, state.outputs version.1 = some status ∧ state.inputs version.1 = some readSet ∧
    Recorded block log version.1 readSet status ∧
      Column state.versionedDataCache version status.update? ∅ version.2
  unwritten : log.Unwritten (version.1, version.2 + 1)

/-- The version has returned, and has entered its updates except those under the keys that are left. -/
structure Applying (version : Version) (result : ExecuteResult K V E) (left : List K) (old : Finset K) : Prop where
  recorded : Recorded block log version.1 result.capturedReads result.status
  column : Column state.versionedDataCache version
    (fun key => if key ∈ left then none else result.status.update? key) old version.2
  unwritten : log.Unwritten (version.1, version.2 + 1)
  unwrittenLeft : ∀ key ∈ left, log key version = none

/-- What is true while a version is executed. -/
def Executing (version : Version) : Work K V E P → Prop
  | .running program capturedReads => Aborted log state version ∧ Reached block log version.1 capturedReads program
  | .blocked depTxnIdx program capturedReads =>
      depTxnIdx < version.1 ∧ Aborted log state version ∧ Reached block log version.1 capturedReads program
  | .returned result =>
      Aborted log state version ∧ Recorded block log version.1 result.capturedReads result.status
  | .applying result updates prevModifiedKeys _ =>
      (∃ applied, result.status.updates = applied ++ updates) ∧
        Applying block log state version result (updates.map Prod.fst) prevModifiedKeys
  | .deleting result prevModifiedKeys _ => Applying block log state version result [] prevModifiedKeys
  | .checkIntersection result _ => Applying block log state version result [] ∅
  | .appending result _ _ => Applying block log state version result [] ∅
  | .checking result _ _ _ => Applying block log state version result [] ∅
  | .raising result _ => Applying block log state version result [] ∅
  | .storeInput result _ => Applying block log state version result [] ∅
  | .storeOutput result _ =>
      Applying block log state version result [] ∅ ∧ state.inputs version.1 = some result.capturedReads
  | .finishing _ => Complete block log state version
  | .panicked => True
  | _ => False

/-- What is true while a thread waits for a dependency. -/
def Waiting (version : Version) : Work K V E P → Prop
  | .blocked depTxnIdx program capturedReads =>
      Executing block log state version (.blocked depTxnIdx program capturedReads)
  | _ => False

/-- What is true while a version is aborted. -/
def Aborting (version : Version) : Work K V E P → Prop
  | .loadModified => Complete block log state version
  | .marking keys => Marking log state version keys
  | _ => False

/-- What is true of the data that a thread works on. -/
def Task : Pc × Work K V E P → Prop
  | (.executing version, work) => Executing block log state version work
  | (.lockDependency version _, work) => Waiting block log state version work
  | (.checkDependency version _, work) => Waiting block log state version work
  | (.suspending version _, work) => Waiting block log state version work
  | (.pushing version _ _, work) => Waiting block log state version work
  | (.waiting version _, work) => Waiting block log state version work
  | (.setExecuted version _, work) => work = .idle ∧ Complete block log state version
  | (.takeDependencies version _, work) => work = .idle ∧ Past state version
  | (.resuming version _ _ _, work) => work = .idle ∧ Past state version
  | (.decreaseExecution version _ _, work) => work = .idle ∧ Past state version
  | (.countExecution version _, work) => work = .idle ∧ Past state version
  | (.checkRevalidate version _, work) => work = .idle ∧ Past state version
  | (.validating version, work) => Past state version ∧ Validating state version work
  | (.aborting version, work) => Aborting block log state version work
  | (.setAborted version, work) => work = .idle ∧ Aborted log state (version.1, version.2 + 1)
  | (_, work) => work = .idle

variable {Thread : Type}

/-- What is true of the recorded data, given what was written so far. -/
structure Accounted (c : Config Thread (ExecutorState K V E P) (Pc × Work K V E P)) : Prop where
  written : Written log c.shared.versionedDataCache
  ready : ∀ version : Version, c.shared.scheduler.txnStatus version.1 = .readyToExecute version.2 none →
    Aborted log c.shared version
  executed : ∀ version : Version, c.shared.scheduler.txnStatus version.1 = .executed version.2 →
    Complete block log c.shared version
  task : ∀ t, Task block log c.shared (c.pc t)

end Definitions

/-! ### What a step of another thread keeps -/

section Frame

variable [DecidableEq K] [TransactionWrite V] {block : Block K V E P} {log log' : Log K V}
  {state state' : ExecutorState K V E P} {version : Version} {work : Work K V E P}

/-- What is recorded of the transaction is the same. -/
structure SameAt (log log' : Log K V) (state state' : ExecutorState K V E P) (i : TxnIndex) : Prop where
  entry : ∀ key, state'.versionedDataCache.entry key i = state.versionedDataCache.entry key i
  inputs : state'.inputs i = state.inputs i
  outputs : state'.outputs i = state.outputs i
  versions : ∀ key incarnation, log' key (i, incarnation) = log key (i, incarnation)

omit [DecidableEq K] [TransactionWrite V] in
theorem Captured.extend {readSet : List (K × ReadKind)} {reads : List (K × ReadOutcome V)}
    (h : Captured log readSet reads) (hlog : log'.Extends log) : Captured log' readSet reads := by
  intro r hr
  obtain ⟨hshows, hkind⟩ := h r hr
  exact ⟨fun version data heq => hlog r.1 version data (hshows version data heq), hkind⟩

omit [DecidableEq K] in
theorem Recorded.extend {i : TxnIndex} {readSet : List (K × ReadKind)}
    {status : ExecutionStatus (TransactionOutput K V) E} (h : Recorded block log i readSet status)
    (hlog : log'.Extends log) : Recorded block log' i readSet status := by
  obtain ⟨reads, hcaptured, hcaptures⟩ := h
  exact ⟨reads, hcaptured.extend hlog, hcaptures⟩

omit [DecidableEq K] in
theorem Reached.extend {i : TxnIndex} {readSet : List (K × ReadKind)}
    {program : Program K (ExecutionStatus (TransactionOutput K V) E)} (h : Reached block log i readSet program)
    (hlog : log'.Extends log) : Reached block log' i readSet program := by
  obtain ⟨reads, hcaptured, hcaptures⟩ := h
  exact ⟨reads, hcaptured.extend hlog, hcaptures⟩

omit [DecidableEq K] [TransactionWrite V] in
theorem Column.congr {m m' : MVHashMap K V} {fresh : K → Option (Update V)} {old : Finset K} {bound : Incarnation}
    (h : Column m version fresh old bound) (hsame : ∀ key, m'.entry key version.1 = m.entry key version.1) :
    Column m' version fresh old bound := by
  refine ⟨?_, ?_, ?_⟩
  · intro key update hfresh
    rw [hsame]
    exact h.entered key update hfresh
  · intro key hold
    rw [hsame]
    exact h.estimated key hold
  · intro key hold hfresh
    rw [hsame]
    exact h.untouched key hold hfresh

omit [DecidableEq K] [TransactionWrite V] in
/-- An entry is changed, and fits what is fresh and old then. -/
theorem Column.change {m m' : MVHashMap K V} {fresh fresh' : K → Option (Update V)} {old old' : Finset K}
    {bound : Incarnation} {key : K} (h : Column m version fresh old bound)
    (hsame : ∀ k, k ≠ key → m'.entry k version.1 = m.entry k version.1)
    (hfresh : ∀ k, k ≠ key → fresh' k = fresh k) (hold : ∀ k, k ≠ key → (k ∈ old' ↔ k ∈ old))
    (hentered : ∀ update, fresh' key = some update → m'.entry key version.1 = some ⟨.done, update.cell version.2⟩)
    (hestimated : key ∈ old' → ∃ cell, m'.entry key version.1 = some ⟨.estimate, cell⟩ ∧ cell.Before bound)
    (huntouched : key ∉ old' → fresh' key = none → m'.entry key version.1 = none) :
    Column m' version fresh' old' bound := by
  refine ⟨?_, ?_, ?_⟩
  · intro k update hk
    by_cases heq : k = key
    · subst heq
      exact hentered update hk
    · rw [hfresh k heq] at hk
      exact (hsame k heq).trans (h.entered k update hk)
  · intro k hk
    by_cases heq : k = key
    · subst heq
      exact hestimated hk
    · rw [hsame k heq]
      exact h.estimated k ((hold k heq).mp hk)
  · intro k hk hnone
    by_cases heq : k = key
    · subst heq
      exact huntouched hk hnone
    · rw [hfresh k heq] at hnone
      exact (hsame k heq).trans (h.untouched k (fun hmem => hk ((hold k heq).mpr hmem)) hnone)

omit [DecidableEq K] [TransactionWrite V] in
theorem SameAt.unwritten (h : SameAt log log' state state' version.1) {incarnation : Incarnation}
    (hunwritten : log.Unwritten (version.1, incarnation)) : log'.Unwritten (version.1, incarnation) := by
  intro key incarnation' hle
  rw [h.versions]
  exact hunwritten key incarnation' hle

omit [TransactionWrite V] in
theorem SameAt.modifiedKeys (h : SameAt log log' state state' version.1) :
    state'.modifiedKeys version.1 = state.modifiedKeys version.1 := by
  unfold ExecutorState.modifiedKeys
  rw [h.outputs]

omit [TransactionWrite V] in
theorem Aborted.frame (h : Aborted log state version) (hsame : SameAt log log' state state' version.1) :
    Aborted log' state' version := by
  refine ⟨?_, hsame.unwritten h.unwritten⟩
  rw [hsame.modifiedKeys]
  exact h.column.congr hsame.entry

omit [TransactionWrite V] in
theorem Marking.frame {keys : Finset K} (h : Marking log state version keys)
    (hsame : SameAt log log' state state' version.1) : Marking log' state' version keys := by
  obtain ⟨fresh, hfresh, hcolumn⟩ := h.column
  refine ⟨?_, ⟨fresh, hfresh, ?_⟩, hsame.unwritten h.unwritten⟩
  · rw [hsame.modifiedKeys]
    exact h.subset
  · rw [hsame.modifiedKeys]
    exact hcolumn.congr hsame.entry

theorem Complete.frame (h : Complete block log state version) (hlog : log'.Extends log)
    (hsame : SameAt log log' state state' version.1) : Complete block log' state' version := by
  obtain ⟨status, readSet, houtput, hinput, hrecorded, hcolumn⟩ := h.recorded
  refine ⟨⟨status, readSet, ?_, ?_, hrecorded.extend hlog, hcolumn.congr hsame.entry⟩, hsame.unwritten h.unwritten⟩
  · rw [hsame.outputs]
    exact houtput
  · rw [hsame.inputs]
    exact hinput

theorem Applying.frame {result : ExecuteResult K V E} {left : List K} {old : Finset K}
    (h : Applying block log state version result left old) (hlog : log'.Extends log)
    (hsame : SameAt log log' state state' version.1) : Applying block log' state' version result left old := by
  refine ⟨h.recorded.extend hlog, h.column.congr hsame.entry, hsame.unwritten h.unwritten, ?_⟩
  intro key hkey
  rw [hsame.versions]
  exact h.unwrittenLeft key hkey

theorem Executing.frame (h : Executing block log state version work) (hlog : log'.Extends log)
    (hsame : SameAt log log' state state' version.1) : Executing block log' state' version work := by
  cases work with
  | running program capturedReads => exact ⟨h.1.frame hsame, h.2.extend hlog⟩
  | blocked depTxnIdx program capturedReads => exact ⟨h.1, h.2.1.frame hsame, h.2.2.extend hlog⟩
  | returned result => exact ⟨h.1.frame hsame, h.2.extend hlog⟩
  | applying result updates prevModifiedKeys updatesOutside => exact ⟨h.1, h.2.frame hlog hsame⟩
  | deleting | checkIntersection | appending | checking | raising | storeInput => exact Applying.frame h hlog hsame
  | storeOutput result updatesOutside => exact ⟨h.1.frame hlog hsame, hsame.inputs.trans h.2⟩
  | finishing updatesOutside => exact Complete.frame h hlog hsame
  | panicked => trivial
  | _ => cases h

theorem Waiting.frame (h : Waiting block log state version work) (hlog : log'.Extends log)
    (hsame : SameAt log log' state state' version.1) : Waiting block log' state' version work := by
  cases work with
  | blocked depTxnIdx program capturedReads =>
      have hexecuting : Executing block log state version (.blocked depTxnIdx program capturedReads) := h
      exact hexecuting.frame hlog hsame
  | _ => cases h

theorem Aborting.frame (h : Aborting block log state version work) (hlog : log'.Extends log)
    (hsame : SameAt log log' state state' version.1) : Aborting block log' state' version work := by
  cases work with
  | loadModified => exact Complete.frame h hlog hsame
  | marking keys => exact Marking.frame h hsame
  | _ => cases h

omit [DecidableEq K] [TransactionWrite V] in
theorem Validating.frame (h : Validating state version work)
    (hsame : state'.scheduler.txnStatus version.1 = .executed version.2 →
      state.scheduler.txnStatus version.1 = .executed version.2 ∧ state'.inputs version.1 = state.inputs version.1) :
    Validating state' version work := by
  cases work with
  | loadReadSet => trivial
  | validating readSet =>
      intro hexecuted
      obtain ⟨hbefore, hinputs⟩ := hsame hexecuted
      rw [hinputs]
      exact h hbefore
  | invalid => trivial
  | panicked => trivial
  | _ => cases h

/-- What is true of the data of a thread stays true if the transaction that it works on is left alone. -/
theorem Task.frame {p : Pc} (h : Task block log state (p, work)) (hlog : log'.Extends log)
    (hsame : ∀ i, p.hold.owned = some i → SameAt log log' state state' i)
    (hpast : ∀ version, Past state version → Past state' version)
    (hexecuted : ∀ version : Version, Past state version → state'.scheduler.txnStatus version.1 = .executed version.2 →
      state.scheduler.txnStatus version.1 = .executed version.2 ∧ state'.inputs version.1 = state.inputs version.1) :
    Task block log' state' (p, work) := by
  cases p with
  | executing version => exact Executing.frame h hlog (hsame _ rfl)
  | lockDependency | checkDependency | suspending | pushing | waiting => exact Waiting.frame h hlog (hsame _ rfl)
  | setExecuted version revalidateSuffix => exact ⟨h.1, h.2.frame hlog (hsame _ rfl)⟩
  | takeDependencies | resuming | decreaseExecution | countExecution | checkRevalidate => exact ⟨h.1, hpast _ h.2⟩
  | validating version => exact ⟨hpast _ h.1, h.2.frame (hexecuted version h.1)⟩
  | aborting version => exact Aborting.frame h hlog (hsame _ rfl)
  | setAborted version => exact ⟨h.1, Aborted.frame h.2 (hsame _ rfl)⟩
  | _ => exact h

end Frame

end MoveTutorial.Executor
