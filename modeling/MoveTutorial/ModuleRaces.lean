import MoveTutorial.ExecutorSerial

/-! Modules that are read and published in one block. Every recorded incarnation first enters the paths that it read
and then those that it wrote, and looks for each in the other set right after it has entered it, so that of a path
in both sets the later one is seen. The block falls back to sequential execution exactly if there is such a path,
even if the incarnations that read and wrote it were aborted later. -/

namespace MoveTutorial.Executor

open Results Interleaving

section Definitions

variable {K V E P : Type} (block : Block K V E P) (state : ExecutorState K V E P)

def ModuleAccess.path : ModuleAccess P → P
  | .read path => path
  | .write path => path

/-- The path is in the set for this kind of access. -/
def ExecutorState.Noted : ModuleAccess P → Prop
  | .read path => path ∈ state.moduleReads
  | .write path => path ∈ state.moduleWrites

/-- The path is in both sets. -/
def ExecutorState.Clashed (path : P) : Prop := state.Noted (.read path) ∧ state.Noted (.write path)

/-- A recorded read set or output has the access. -/
def Block.Records : ModuleAccess P → Prop
  | .read path => ∃ i readSet, state.inputs i = some readSet ∧ ∃ read ∈ readSet, block.modulePath read.1 = some path
  | .write path =>
      ∃ i status, state.outputs i = some status ∧ ∃ key ∈ status.writtenKeys, block.modulePath key = some path

/-- The thread has entered the path, and has not raised the flag yet. -/
def Raises (path : P) : Work K V E P → Prop
  | .checking _ _ access _ => access.path = path
  | .raising _ _ => True
  | _ => False

/-- What the thread that records has entered so far. -/
def Noting : Work K V E P → Prop
  | .appending result _ accesses =>
      ∃ noted, block.moduleAccesses result = noted ++ accesses ∧ ∀ access ∈ noted, state.Noted access
  | .checking result _ access accesses =>
      ∃ noted, block.moduleAccesses result = noted ++ access :: accesses ∧ ∀ a ∈ noted ++ [access], state.Noted a
  | .raising _ _ => ∃ path, state.Clashed path
  | .storeInput result _ | .storeOutput result _ =>
      state.moduleReadWriteIntersection = true ∨ ∀ access ∈ block.moduleAccesses result, state.Noted access
  | _ => True

/-- The thread will record the access. -/
def Pending : ModuleAccess P → Work K V E P → Prop
  | access, .appending result _ _ => access ∈ block.moduleAccesses result
  | access, .checking result _ _ _ => access ∈ block.moduleAccesses result
  | access, .raising result _ => access ∈ block.moduleAccesses result
  | access, .storeInput result _ => access ∈ block.moduleAccesses result
  | .write path, .storeOutput result _ => .write path ∈ block.moduleAccesses result
  | _, _ => False

variable {Thread : Type}

/-- What is recorded is entered, and a path that is in both sets is seen, unless the flag is raised. -/
structure Flagged (c : Config Thread (ExecutorState K V E P) (Pc × Work K V E P)) : Prop where
  clash : ∀ path, c.shared.Clashed path →
    c.shared.moduleReadWriteIntersection = true ∨ ∃ t, Raises path (c.pc t).2
  recorded : ∀ access, block.Records c.shared access →
    c.shared.moduleReadWriteIntersection = true ∨ c.shared.Noted access
  work : ∀ t, Noting block c.shared (c.pc t).2

end Definitions

section Accesses

variable {K V E P : Type} {block : Block K V E P} {result : ExecuteResult K V E} {path : P}

theorem read_mem_moduleAccesses : .read path ∈ block.moduleAccesses result ↔
    ∃ read ∈ result.capturedReads, block.modulePath read.1 = some path := by
  simp [Block.moduleAccesses]

theorem write_mem_moduleAccesses : .write path ∈ block.moduleAccesses result ↔
    ∃ key ∈ result.status.writtenKeys, block.modulePath key = some path := by
  simp [Block.moduleAccesses]

end Accesses

section Steps

variable {K V E P : Type} [DecidableEq K] [DecidableEq P] {block : Block K V E P}
  {state state' : ExecutorState K V E P} {access : ModuleAccess P} {path : P} {version : Version}
  {work work' : Work K V E P}

omit [DecidableEq K] in
theorem ExecutorState.noted_append {a : ModuleAccess P} :
    (state.append access).Noted a ↔ a = access ∨ state.Noted a := by
  cases access <;> cases a <;> simp [ExecutorState.append, ExecutorState.Noted]

omit [DecidableEq K] in
/-- The other set is looked into. -/
theorem ExecutorState.clashes_iff (hnoted : state.Noted access) :
    state.clashes access = true ↔ state.Clashed access.path := by
  cases access with
  | read path =>
      rw [ExecutorState.clashes, decide_eq_true_iff]
      exact ⟨fun hwrites => ⟨hnoted, hwrites⟩, And.right⟩
  | write path =>
      rw [ExecutorState.clashes, decide_eq_true_iff]
      exact ⟨fun hreads => ⟨hreads, hnoted⟩, And.left⟩

/-- The recorded data and the sets are the same. -/
structure SameRecord (state state' : ExecutorState K V E P) : Prop where
  inputs : state'.inputs = state.inputs
  outputs : state'.outputs = state.outputs
  moduleReads : state'.moduleReads = state.moduleReads
  moduleWrites : state'.moduleWrites = state.moduleWrites
  flag : state'.moduleReadWriteIntersection = state.moduleReadWriteIntersection

omit [DecidableEq K] [DecidableEq P] in
theorem SameRecord.noted (h : SameRecord state state') : state'.Noted access ↔ state.Noted access := by
  cases access with
  | read path =>
      unfold ExecutorState.Noted
      rw [h.moduleReads]
  | write path =>
      unfold ExecutorState.Noted
      rw [h.moduleWrites]

omit [DecidableEq K] [DecidableEq P] in
theorem SameRecord.records (h : SameRecord state state') : block.Records state' access ↔ block.Records state access := by
  cases access with
  | read path =>
      unfold Block.Records
      rw [h.inputs]
  | write path =>
      unfold Block.Records
      rw [h.outputs]

/-- The thread does not record. -/
def Work.Plain : Work K V E P → Prop
  | .appending .. | .checking .. | .raising .. | .storeInput .. | .storeOutput .. => False
  | _ => True

variable [TransactionWrite V]

omit [DecidableEq K] [DecidableEq P] [TransactionWrite V] in
theorem React.plain {e : Event} (h : React block e work work') : work' = work ∨ work.Plain ∧ work'.Plain := by
  cases h with
  | inside => exact Or.inl rfl
  | _ => exact Or.inr ⟨trivial, trivial⟩

/-- A step of a thread is one of `execute`, or nothing is recorded by it. -/
theorem ExecutorStep.recording {q q' : Pc × Work K V E P} {e : Event} (h : ExecutorStep block state q e state' q') :
    (∃ version, ExecuteStep block version state q.2 state' q'.2) ∨
      SameRecord state state' ∧ (q'.2 = q.2 ∨ q.2.Plain ∧ q'.2.Plain) := by
  cases h with
  | scheduler _ hreact => exact Or.inr ⟨⟨rfl, rfl, rfl, rfl, rfl⟩, hreact.plain⟩
  | execute h => exact Or.inl ⟨_, h⟩
  | validate h =>
      rw [h.same]
      refine Or.inr ⟨⟨rfl, rfl, rfl, rfl, rfl⟩, Or.inr ?_⟩
      cases h <;> exact ⟨trivial, trivial⟩
  | abort h =>
      refine Or.inr ?_
      cases h <;> exact ⟨⟨rfl, rfl, rfl, rfl, rfl⟩, Or.inr ⟨trivial, trivial⟩⟩

theorem ExecuteStep.noted (h : ExecuteStep block version state work state' work') (hnoted : state.Noted access) :
    state'.Noted access := by
  cases h with
  | append => exact ExecutorState.noted_append.mpr (Or.inr hnoted)
  | _ => exact hnoted

theorem ExecuteStep.flag (h : ExecuteStep block version state work state' work')
    (hflag : state.moduleReadWriteIntersection = true) : state'.moduleReadWriteIntersection = true := by
  cases h with
  | raise => rfl
  | @append _ _ access _ => cases access <;> exact hflag
  | _ => exact hflag

theorem ExecutorStep.noted {q q' : Pc × Work K V E P} {e : Event} (h : ExecutorStep block state q e state' q')
    (hnoted : state.Noted access) : state'.Noted access := by
  rcases h.recording with ⟨version, h⟩ | ⟨hsame, -⟩
  · exact h.noted hnoted
  · exact hsame.noted.mpr hnoted

theorem ExecutorStep.flag {q q' : Pc × Work K V E P} {e : Event} (h : ExecutorStep block state q e state' q')
    (hflag : state.moduleReadWriteIntersection = true) : state'.moduleReadWriteIntersection = true := by
  rcases h.recording with ⟨version, h⟩ | ⟨hsame, -⟩
  · exact h.flag hflag
  · rw [hsame.flag]
    exact hflag

omit [DecidableEq K] [DecidableEq P] [TransactionWrite V] in
/-- What is entered stays entered. -/
theorem Noting.frame (h : Noting block state work) (hnoted : ∀ access, state.Noted access → state'.Noted access)
    (hflag : state.moduleReadWriteIntersection = true → state'.moduleReadWriteIntersection = true) :
    Noting block state' work := by
  cases work with
  | appending result updatesOutside accesses =>
      obtain ⟨noted, hsplit, hall⟩ := h
      exact ⟨noted, hsplit, fun a ha => hnoted a (hall a ha)⟩
  | checking result updatesOutside access accesses =>
      obtain ⟨noted, hsplit, hall⟩ := h
      exact ⟨noted, hsplit, fun a ha => hnoted a (hall a ha)⟩
  | raising result updatesOutside =>
      obtain ⟨path, hreads, hwrites⟩ := h
      exact ⟨path, hnoted _ hreads, hnoted _ hwrites⟩
  | storeInput result updatesOutside | storeOutput result updatesOutside =>
      exact h.imp hflag fun hall a ha => hnoted a (hall a ha)
  | _ => trivial

omit [DecidableEq K] [DecidableEq P] [TransactionWrite V] in
theorem Work.Plain.noting (h : work.Plain) : Noting block state work := by
  cases work with
  | appending | checking | raising | storeInput | storeOutput => cases h
  | _ => trivial

omit [DecidableEq K] [DecidableEq P] [TransactionWrite V] in
theorem Work.Plain.not_raises (h : work.Plain) : ¬Raises path work := by
  cases work with
  | checking | raising => cases h
  | _ => exact id

omit [DecidableEq K] [DecidableEq P] [TransactionWrite V] in
theorem Work.Plain.not_pending (h : work.Plain) : ¬Pending block access work := by
  cases work with
  | appending | checking | raising | storeInput | storeOutput => cases h
  | _ => cases access <;> exact id

/-! ### The flag is raised if it must be -/

theorem ExecuteStep.noting (h : ExecuteStep block version state work state' work') (hnoting : Noting block state work) :
    Noting block state' work' := by
  cases h with
  | notIntersected => exact ⟨[], rfl, fun _ ha => absurd ha List.not_mem_nil⟩
  | intersected h => exact Or.inl h
  | @append result _ access accesses =>
      obtain ⟨noted, hsplit, hall⟩ := hnoting
      refine ⟨noted, hsplit, ?_⟩
      intro a ha
      apply ExecutorState.noted_append.mpr
      rcases List.mem_append.mp ha with ha | ha
      · exact Or.inr (hall a ha)
      · exact Or.inl (List.mem_singleton.mp ha)
  | @clash _ _ access _ h =>
      obtain ⟨noted, hsplit, hall⟩ := hnoting
      exact ⟨access.path, (ExecutorState.clashes_iff (hall access (by simp))).mp h⟩
  | @noClash _ _ access accesses =>
      obtain ⟨noted, hsplit, hall⟩ := hnoting
      refine ⟨noted ++ [access], ?_, hall⟩
      rw [List.append_assoc]
      exact hsplit
  | raise => exact Or.inl rfl
  | appended =>
      obtain ⟨noted, hsplit, hall⟩ := hnoting
      rw [List.append_nil] at hsplit
      exact Or.inr fun a ha => hall a (hsplit ▸ ha)
  | storeInput => exact hnoting
  | _ => trivial

/-- A path that is in both sets was there before, or the thread has just entered it; and the thread raises the flag
for the paths that it has entered. -/
theorem ExecuteStep.clashed (h : ExecuteStep block version state work state' work') (hnoting : Noting block state work)
    (hclash : state'.Clashed path) :
    Raises path work' ∨
      state.Clashed path ∧ (Raises path work → state'.moduleReadWriteIntersection = true) := by
  cases h with
  | @append _ _ access _ =>
      obtain ⟨hreads, hwrites⟩ := hclash
      rcases ExecutorState.noted_append.mp hreads with rfl | hreads
      · exact Or.inl rfl
      · rcases ExecutorState.noted_append.mp hwrites with rfl | hwrites
        · exact Or.inl rfl
        · exact Or.inr ⟨⟨hreads, hwrites⟩, False.elim⟩
  | clash => exact Or.inl trivial
  | @noClash _ _ access _ h =>
      obtain ⟨noted, -, hall⟩ := hnoting
      refine Or.inr ⟨hclash, ?_⟩
      rintro rfl
      rw [(ExecutorState.clashes_iff (hall access (by simp))).mpr hclash] at h
      cases h
  | raise => exact Or.inr ⟨hclash, fun _ => rfl⟩
  | _ => exact Or.inr ⟨hclash, False.elim⟩

/-- What is recorded has been entered, unless the flag was raised. -/
theorem ExecuteStep.records (h : ExecuteStep block version state work state' work') (hnoting : Noting block state work)
    (hrecords : block.Records state' access) :
    block.Records state access ∨ state.moduleReadWriteIntersection = true ∨ state.Noted access := by
  cases h with
  | @append _ _ a _ =>
      refine Or.inl ?_
      cases access <;> cases a <;> exact hrecords
  | @storeInput result _ =>
      cases access with
      | write path => exact Or.inl hrecords
      | read path =>
          obtain ⟨i, readSet, hinput, hread⟩ := hrecords
          by_cases hi : i = version.1
          · rw [hi] at hinput
            dsimp only at hinput
            rw [Function.update_self] at hinput
            obtain rfl := Option.some.inj hinput
            exact Or.inr (hnoting.imp_right fun hall => hall _ (read_mem_moduleAccesses.mpr hread))
          · dsimp only at hinput
            rw [Function.update_of_ne hi] at hinput
            exact Or.inl ⟨i, readSet, hinput, hread⟩
  | @storeOutput result _ =>
      cases access with
      | read path => exact Or.inl hrecords
      | write path =>
          obtain ⟨i, status, houtput, hkey⟩ := hrecords
          by_cases hi : i = version.1
          · rw [hi] at houtput
            dsimp only at houtput
            rw [Function.update_self] at houtput
            obtain rfl := Option.some.inj houtput
            exact Or.inr (hnoting.imp_right fun hall => hall _ (write_mem_moduleAccesses.mpr hkey))
          · dsimp only at houtput
            rw [Function.update_of_ne hi] at houtput
            exact Or.inl ⟨i, status, houtput, hkey⟩
  | _ =>
      refine Or.inl ?_
      cases access <;> exact hrecords

/-! ### The flag is raised only if it must be -/

/-- What is entered will be recorded. -/
theorem ExecuteStep.entered (h : ExecuteStep block version state work state' work') (hnoting : Noting block state work)
    (hnoted : state'.Noted access) : state.Noted access ∨ Pending block access work' := by
  cases h with
  | @append result _ _ accesses =>
      rcases ExecutorState.noted_append.mp hnoted with rfl | hnoted
      · obtain ⟨noted, hsplit, -⟩ := hnoting
        have hmem : access ∈ block.moduleAccesses result := by
          rw [hsplit]
          exact List.mem_append_right _ List.mem_cons_self
        refine Or.inr ?_
        cases access <;> exact hmem
      · exact Or.inl hnoted
  | _ => exact Or.inl hnoted

theorem ExecuteStep.pending (h : ExecuteStep block version state work state' work')
    (hpending : Pending block access work) : Pending block access work' ∨ block.Records state' access := by
  cases h with
  | append | clash | noClash | raise | appended =>
      refine Or.inl ?_
      cases access <;> exact hpending
  | storeInput =>
      cases access with
      | write path => exact Or.inl hpending
      | read path => exact Or.inr ⟨version.1, _, Function.update_self .., read_mem_moduleAccesses.mp hpending⟩
  | storeOutput =>
      cases access with
      | read path => cases hpending
      | write path => exact Or.inr ⟨version.1, _, Function.update_self .., write_mem_moduleAccesses.mp hpending⟩
  | _ => cases access <;> cases hpending

theorem ExecuteStep.raised (h : ExecuteStep block version state work state' work') (hnoting : Noting block state work)
    (hflag : state'.moduleReadWriteIntersection = true) :
    state.moduleReadWriteIntersection = true ∨ ∃ path, state.Clashed path := by
  cases h with
  | raise => exact Or.inr hnoting
  | @append _ _ a _ => cases a <;> exact Or.inl hflag
  | _ => exact Or.inl hflag

end Steps

/-! ### Runs -/

section Runs

variable {K V E P : Type} [DecidableEq K] [DecidableEq P] [TransactionWrite V] {block : Block K V E P}
  {Thread : Type} [DecidableEq Thread] {c c' : Config Thread (ExecutorState K V E P) (Pc × Work K V E P)}
  {t : Thread} {e : Event}

theorem Flagged.next (h : Flagged block c) (hnext : Next (ExecutorStep block) t e c c') : Flagged block c' := by
  have hstep := hnext.moved
  have hnoted : ∀ access, c.shared.Noted access → c'.shared.Noted access := fun _ => hstep.noted
  refine ⟨?_, ?_, ?_⟩
  · intro path hclash
    rcases hstep.recording with ⟨version, hexecute⟩ | ⟨hsame, hwork⟩
    · rcases hexecute.clashed (h.work t) hclash with hraises | ⟨hclash, hraised⟩
      · exact Or.inr ⟨t, hraises⟩
      · rcases h.clash path hclash with hflag | hex
        · exact Or.inl (hstep.flag hflag)
        · exact (hnext.exists_pc (P := fun q => Raises path q.2) hex).imp_left hraised
    · have hclash' : c.shared.Clashed path := ⟨hsame.noted.mp hclash.1, hsame.noted.mp hclash.2⟩
      refine (h.clash path hclash').imp hstep.flag fun hex => ?_
      rcases hnext.exists_pc (P := fun q => Raises path q.2) hex with ht | hex
      · rcases hwork with heq | ⟨hplain, -⟩
        · exact ⟨t, heq ▸ ht⟩
        · exact absurd ht hplain.not_raises
      · exact hex
  · intro access hrecords
    rcases hstep.recording with ⟨version, hexecute⟩ | ⟨hsame, -⟩
    · rcases hexecute.records (h.work t) hrecords with hrecords | hnow
      · exact (h.recorded access hrecords).imp hstep.flag (hnoted access)
      · exact hnow.imp hstep.flag (hnoted access)
    · exact (h.recorded access (hsame.records.mp hrecords)).imp hstep.flag (hnoted access)
  · apply hnext.forall_pc (P := fun q => Noting block c'.shared q.2)
    · exact fun t' => (h.work t').frame hnoted hstep.flag
    · rcases hstep.recording with ⟨version, hexecute⟩ | ⟨-, heq | ⟨-, hplain⟩⟩
      · exact hexecute.noting (h.work t)
      · rw [heq]
        exact (h.work t).frame hnoted hstep.flag
      · exact hplain.noting

theorem Reachable.flagged (h : Reachable (ExecutorStep block) (block.start Thread) c) : Flagged block c := by
  apply Reachable.invariant h
  · refine ⟨?_, ?_, fun _ => trivial⟩
    · rintro path ⟨hreads, -⟩
      cases hreads
    · intro access hrecords
      cases access with
      | read path =>
          obtain ⟨i, readSet, hinput, -⟩ := hrecords
          cases hinput
      | write path =>
          obtain ⟨i, status, houtput, -⟩ := hrecords
          cases houtput
  · intro c c' t e _ hflagged hnext
    exact hflagged.next hnext

/-- What was recorded is entered for good, unless the flag is raised. -/
theorem noted_of_once {access : ModuleAccess P}
    (h : Once (ExecutorStep block) (block.start Thread) (fun c => block.Records c.shared access) c) :
    c.shared.moduleReadWriteIntersection = true ∨ c.shared.Noted access := by
  apply h.carry
  · intro c hreach hrecords
    exact (Reachable.flagged hreach).recorded access hrecords
  · intro c c' t e hnow hnext
    exact hnow.imp hnext.moved.flag hnext.moved.noted

variable (block) in
/-- The flag is raised for a path in both sets, and what is entered was recorded at some time or will be. -/
structure Justified (c : Config Thread (ExecutorState K V E P) (Pc × Work K V E P)) : Prop where
  raised : c.shared.moduleReadWriteIntersection = true → ∃ path, c.shared.Clashed path
  noted : ∀ access, c.shared.Noted access →
    Once (ExecutorStep block) (block.start Thread) (fun c => block.Records c.shared access) c ∨
      ∃ t, Pending block access (c.pc t).2

theorem Justified.next (h : Justified block c) (hreach : Reachable (ExecutorStep block) (block.start Thread) c)
    (hnext : Next (ExecutorStep block) t e c c') : Justified block c' := by
  have hstep := hnext.moved
  have hnoting := (Reachable.flagged hreach).work t
  constructor
  · intro hflag
    have hbefore : ∃ path, c.shared.Clashed path := by
      rcases hstep.recording with ⟨version, hexecute⟩ | ⟨hsame, -⟩
      · exact (hexecute.raised hnoting hflag).elim h.raised id
      · exact h.raised (hsame.flag ▸ hflag)
    obtain ⟨path, hreads, hwrites⟩ := hbefore
    exact ⟨path, hstep.noted hreads, hstep.noted hwrites⟩
  · intro access hnoted
    have hkept : c.shared.Noted access →
        Once (ExecutorStep block) (block.start Thread) (fun c => block.Records c.shared access) c' ∨
          ∃ t, Pending block access (c'.pc t).2 := by
      intro hnoted
      rcases h.noted access hnoted with honce | hex
      · exact Or.inl (honce.next hnext)
      · rcases hnext.exists_pc (P := fun q => Pending block access q.2) hex with ht | hex
        · rcases hstep.recording with ⟨version, hexecute⟩ | ⟨-, heq | ⟨hplain, -⟩⟩
          · rcases hexecute.pending ht with ht' | hrecords
            · exact Or.inr ⟨t, ht'⟩
            · exact Or.inl (.now (hreach.next hnext) hrecords)
          · exact Or.inr ⟨t, heq ▸ ht⟩
          · exact absurd ht hplain.not_pending
        · exact Or.inr hex
    rcases hstep.recording with ⟨version, hexecute⟩ | ⟨hsame, -⟩
    · rcases hexecute.entered hnoting hnoted with hbefore | hpending
      · exact hkept hbefore
      · exact Or.inr ⟨t, hpending⟩
    · exact hkept (hsame.noted.mp hnoted)

theorem Reachable.justified (h : Reachable (ExecutorStep block) (block.start Thread) c) : Justified block c := by
  apply Reachable.invariant h
  · constructor
    · intro hflag
      cases hflag
    · intro access hnoted
      cases access <;> cases hnoted
  · intro c c' t e hreach hjustified hnext
    exact hjustified.next hreach hnext

omit [DecidableEq P] in
/-- A thread without a task has nothing to record. -/
theorem Task.idle {log : Log K V} {state : ExecutorState K V E P} {q : Pc × Work K V E P} {n : ℕ}
    (h : Task block log state q) (hquiet : q.1.Quiet n) : q.2 = .idle := by
  obtain ⟨p, work⟩ := q
  cases p with
  | executing | lockDependency | checkDependency | suspending | pushing | waiting | setExecuted | takeDependencies
  | resuming | decreaseExecution | countExecution | checkRevalidate | validating | aborting | setAborted => cases hquiet
  | _ => exact h

omit [DecidableEq K] [DecidableEq P] [TransactionWrite V] in
theorem results_eq_race_iff {state : ExecutorState K V E P} :
    state.results = some (.error .modulePathReadWrite) ↔ state.moduleReadWriteIntersection = true := by
  unfold ExecutorState.results
  split
  · next hflag => exact iff_of_true rfl hflag
  · next hflag =>
      refine iff_of_false (fun hresults => ?_) hflag
      obtain ⟨statuses, -, hblock⟩ := Option.map_eq_some_iff.mp hresults
      unfold blockResults at hblock
      split at hblock <;> cases hblock

/-- **Module races are found.** When the scheduler of any interleaving is done, the block falls back to sequential
execution exactly if there is a module path that a recorded incarnation of some transaction had read and a
recorded incarnation of some transaction had written, at any time of the run. -/
theorem module_race_iff [Fintype Thread] (h : Reachable (ExecutorStep block) (block.start Thread) c)
    (hdone : c.shared.scheduler.doneMarker = true ∨ ∃ t, (c.pc t).1 = .finished) :
    c.shared.results = some (.error .modulePathReadWrite) ↔
      ∃ path, Once (ExecutorStep block) (block.start Thread) (fun c => block.Records c.shared (.read path)) c ∧
        Once (ExecutorStep block) (block.start Thread) (fun c => block.Records c.shared (.write path)) c := by
  obtain ⟨log, haccounted⟩ := Reachable.accounted h
  have hidle : ∀ t, (c.pc t).2 = .idle := fun t => (haccounted.task t).idle ((settled_of_done h hdone).quiet t)
  rw [results_eq_race_iff]
  constructor
  · intro hflag
    obtain ⟨path, hreads, hwrites⟩ := (Reachable.justified h).raised hflag
    have honce : ∀ access, c.shared.Noted access →
        Once (ExecutorStep block) (block.start Thread) (fun c => block.Records c.shared access) c := by
      intro access hnoted
      apply ((Reachable.justified h).noted access hnoted).resolve_right
      rintro ⟨t, ht⟩
      rw [hidle t] at ht
      cases access <;> cases ht
    exact ⟨path, honce _ hreads, honce _ hwrites⟩
  · rintro ⟨path, hread, hwrite⟩
    rcases noted_of_once hread with hflag | hreads
    · exact hflag
    · rcases noted_of_once hwrite with hflag | hwrites
      · exact hflag
      · refine ((Reachable.flagged h).clash path ⟨hreads, hwrites⟩).resolve_right ?_
        rintro ⟨t, ht⟩
        rw [hidle t] at ht
        cases ht

end Runs

/-- A transaction that reads a module and publishes it again. -/
def republish : Block Unit WriteOp Empty Unit where
  bcs := .u128
  numTxns := 1
  program _ := .read () fun _ => .ret (.success ⟨[((), .modification [])], [], List.nodup_singleton _⟩)
  storage _ := some []
  modulePath _ := some ()

/-- One thread finds that the module is read and written. -/
theorem module_race_iff_one :
    ∃ c : Config Unit (ExecutorState Unit WriteOp Empty Unit) (Pc × Work Unit WriteOp Empty Unit),
      (c.pc ()).1 = .finished ∧ c.shared.results = some (.error .modulePathReadWrite) ∧
        ∃ path, Once (ExecutorStep republish) (republish.start Unit)
            (fun c => republish.Records c.shared (.read path)) c ∧
          Once (ExecutorStep republish) (republish.start Unit) (fun c => republish.Records c.shared (.write path)) c := by
  have h : Reachable (ExecutorStep republish) (republish.start Unit) _ := .refl
  have h := h.next (.alone (.scheduler (.notDone rfl) .inside))
  have h := h.next (.alone (.scheduler .loadValidationIdx .inside))
  have h := h.next (.alone (.scheduler (.preferExecution (by decide)) .inside))
  have h := h.next (.alone (.scheduler (.someToExecute (by decide)) .inside))
  have h := h.next (.alone (.scheduler .guardExecute .inside))
  have h := h.next (.alone (.scheduler .claimExecute .inside))
  have h := h.next (.alone (.scheduler (.executionTask rfl) .executionTask))
  have h := h.next (.alone (.execute (.read (show MVHashMap.read _ _ _ _ = .ok (.error .notFound) from rfl) rfl)))
  have h := h.next (.alone (.execute .return))
  have h := h.next (.alone (.execute .loadModified))
  have h := h.next (.alone (.execute (.apply rfl)))
  have h := h.next (.alone (.execute .applied))
  have h := h.next (.alone (.execute .deleted))
  -- the module is entered among those that are read, and then among those that are written
  have h := h.next (.alone (.execute (.notIntersected rfl)))
  have h := h.next (.alone (.execute .append))
  have h := h.next (.alone (.execute (.noClash rfl)))
  have h := h.next (.alone (.execute .append))
  have h := h.next (.alone (.execute (.clash rfl)))
  have h := h.next (.alone (.execute .raise))
  have h := h.next (.alone (.execute .storeInput))
  have h := h.next (.alone (.execute .storeOutput))
  have h := h.next (.alone (.scheduler (.finishExecution _) .finishExecution))
  have h := h.next (.alone (.scheduler (.setExecuted rfl) .inside))
  have h := h.next (.alone (.scheduler (.takeDependencies rfl) .inside))
  have h := h.next (.alone (.scheduler .noDependencies .inside))
  have h := h.next (.alone (.scheduler (.alreadyLower (by decide)) .inside))
  have h := h.next (.alone (.scheduler (.dropGuard (by decide)) .inside))
  have h := h.next (.alone (.scheduler (.notDone rfl) .inside))
  have h := h.next (.alone (.scheduler .loadValidationIdx .inside))
  have h := h.next (.alone (.scheduler (.preferValidation (by decide)) .inside))
  have h := h.next (.alone (.scheduler (.someToValidate (by decide)) .inside))
  have h := h.next (.alone (.scheduler .guardValidate .inside))
  have h := h.next (.alone (.scheduler .claimValidate .inside))
  have h := h.next (.alone (.scheduler (.validationTask rfl) .validationTask))
  have h := h.next (.alone (.validate (.loadReadSet rfl)))
  have h := h.next (.alone (.validate (.valid rfl)))
  have h := h.next (.alone (.scheduler .validated .validated))
  have h := h.next (.alone (.scheduler (.dropGuard (by decide)) .inside))
  have h := h.next (.alone (.scheduler (.notDone rfl) .inside))
  have h := h.next (.alone (.scheduler .loadValidationIdx .inside))
  have h := h.next (.alone (.scheduler (.preferExecution (by decide)) .inside))
  have h := h.next (.alone (.scheduler (.noneToExecute (by decide)) .inside))
  have h := h.next (.alone (.scheduler .checkDone .inside))
  have h := h.next (.alone (.scheduler .checkValidation .inside))
  have h := h.next (.alone (.scheduler .checkExecution .inside))
  have h := h.next (.alone (.scheduler (.noWorkRemaining (by decide)) .inside))
  have h := h.next (.alone (.scheduler (.unchanged rfl) .inside))
  have h := h.next (.alone (.scheduler .setDone .inside))
  have h := h.next (.alone (.scheduler (.done rfl) .inside))
  exact ⟨_, rfl, rfl, (module_race_iff h (Or.inr ⟨(), rfl⟩)).mp rfl⟩

end MoveTutorial.Executor
