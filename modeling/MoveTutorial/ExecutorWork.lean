import MoveTutorial.ExecutorData

/-! What a thread does with its transaction keeps what the recorded data says, step by step of the work, and so do
the steps of the scheduler. -/

namespace MoveTutorial.Executor

open Results Interleaving

variable {K V E P : Type}

section Logs

variable {log log' : Log K V} {state state' : ExecutorState K V E P} {version : Version}

/-- A step that concerns only what is recorded of one transaction. -/
structure Advance (log log' : Log K V) (state state' : ExecutorState K V E P) (i : TxnIndex) : Prop where
  extend : log'.Extends log
  others : ∀ j ≠ i, SameAt log log' state state' j
  scheduler : state'.scheduler = state.scheduler
  inputs : state.inputs i ≠ none → state'.inputs i ≠ none
  written : Written log' state'.versionedDataCache

theorem Log.extends_refl (log : Log K V) : log.Extends log := fun _ _ _ h => h

theorem Advance.refl {i : TxnIndex} (hwritten : Written log state.versionedDataCache) :
    Advance log log state state i :=
  ⟨log.extends_refl, fun _ _ => ⟨fun _ => rfl, rfl, rfl, fun _ _ => rfl⟩, rfl, id, hwritten⟩

/-- Entries that are not writes, or are writes that were there already, need no record. -/
theorem Written.change {m m' : MVHashMap K V} {key : K} {i : TxnIndex} (h : Written log m)
    (hsame : SameElsewhere m m' key i)
    (hentry : ∀ e', m'.entry key i = some e' → ∃ e, m.entry key i = some e ∧ e.cell = e'.cell) : Written log m' := by
  intro k j flag incarnation data hkey
  by_cases hkj : k = key ∧ j = i
  · obtain ⟨rfl, rfl⟩ := hkj
    obtain ⟨⟨flag', cell⟩, he, hcell⟩ := hentry _ hkey
    obtain rfl : cell = .write incarnation data := hcell
    exact h k j flag' incarnation data he
  · rw [hsame k j (not_and_or.mp hkj)] at hkey
    exact h k j flag incarnation data hkey

/-- A change of an entry of the transaction. -/
theorem Advance.setCache {m' : MVHashMap K V} {key : K} {i : TxnIndex} (hlog : log'.Extends log)
    (hothers : ∀ j ≠ i, ∀ k incarnation, log' k (j, incarnation) = log k (j, incarnation))
    (hsame : SameElsewhere state.versionedDataCache m' key i) (hwritten : Written log' m') :
    Advance log log' state (state.setCache m') i := by
  refine ⟨hlog, ?_, rfl, id, hwritten⟩
  intro j hj
  exact ⟨fun k => hsame k j (Or.inr hj), rfl, rfl, hothers j hj⟩

variable [DecidableEq K]

/-- The log after an update. -/
def Log.record (log : Log K V) (key : K) (version : Version) : Update V → Log K V
  | .write data => fun k v => if k = key ∧ v = version then some data else log k v
  | .delta _ => log

theorem Log.record_of_ne (log : Log K V) {key k : K} {version v : Version} (update : Update V)
    (h : k ≠ key ∨ v ≠ version) : log.record key version update k v = log k v := by
  cases update with
  | delta op => rfl
  | write data => exact if_neg (not_and_or.mpr h)

theorem Log.extends_record {key : K} (hnone : log key version = none) (update : Update V) :
    (log.record key version update).Extends log := by
  intro k v data hdata
  rw [Log.record_of_ne log update ?_]
  · exact hdata
  · by_contra hboth
    obtain ⟨hk, hv⟩ := not_or.mp hboth
    rw [not_not.mp hk, not_not.mp hv, hnone] at hdata
    cases hdata

/-- The entry that was changed, and all others. -/
theorem Written.record {m m' : MVHashMap K V} {key : K} {update : Update V} (h : Written log m)
    (hentry : m'.entry key version.1 = some ⟨.done, update.cell version.2⟩)
    (hsame : SameElsewhere m m' key version.1) (hnone : log key version = none) :
    Written (log.record key version update) m' := by
  intro k i flag incarnation data hkey
  by_cases hki : k = key ∧ i = version.1
  · obtain ⟨rfl, rfl⟩ := hki
    rw [hentry] at hkey
    cases update with
    | delta op => cases hkey
    | write data' =>
        cases hkey
        exact if_pos ⟨rfl, rfl⟩
  · rw [hsame k i (not_and_or.mp hki)] at hkey
    exact Log.extends_record hnone update k _ _ (h k i flag incarnation data hkey)

end Logs

/-! ### The keys of a status -/

section Keys

variable [DecidableEq K] {status : ExecutionStatus (TransactionOutput K V) E} {applied updates : List (K × Update V)}
  {key : K} {update : Update V}

omit [DecidableEq K] in
theorem ExecutionStatus.nodup_modifiedKeys (status : ExecutionStatus (TransactionOutput K V) E) :
    status.modifiedKeys.Nodup := by
  have houtput : ∀ output : TransactionOutput K V, (output.updates.map Prod.fst).Nodup := by
    intro output
    rw [TransactionOutput.updates, List.map_append, List.map_map, List.map_map]
    exact output.nodup
  cases status with
  | success output => exact houtput output
  | skipRest output => exact houtput output
  | abort err => exact List.nodup_nil

/-- A key that is next to be updated is not updated again. -/
theorem ExecutionStatus.update?_next (h : status.updates = applied ++ (key, update) :: updates) :
    status.update? key = some update ∧ key ∉ updates.map Prod.fst := by
  have hnodup := status.nodup_modifiedKeys
  rw [ExecutionStatus.modifiedKeys, h, List.map_append, List.map_cons, List.nodup_append] at hnodup
  obtain ⟨-, hlater, hearlier⟩ := hnodup
  refine ⟨?_, (List.nodup_cons.mp hlater).1⟩
  rw [ExecutionStatus.update?, List.lookup_eq_some_iff]
  refine ⟨applied, updates, h, ?_⟩
  intro p hp
  have hne := hearlier p.1 (List.mem_map_of_mem hp) key List.mem_cons_self
  simpa using hne.symm

theorem ExecutionStatus.update?_eq_none : status.update? key = none ↔ key ∉ status.modifiedKeys := by
  rw [ExecutionStatus.update?, List.lookup_eq_none_iff, ExecutionStatus.modifiedKeys, List.mem_map]
  constructor
  · intro h hmem
    obtain ⟨p, hp, rfl⟩ := hmem
    simpa using h p hp
  · intro h p hp
    simpa using fun heq : key = p.1 => h ⟨p, hp, heq.symm⟩

end Keys

/-! ### The steps of a task -/

section Steps

variable [DecidableEq K] [TransactionWrite V] {block : Block K V E P} {log : Log K V}
  {state : ExecutorState K V E P} {version : Version} {result : ExecuteResult K V E} {key : K} {m' : MVHashMap K V}

omit [DecidableEq K] in
/-- One more read is captured. -/
theorem Reached.read {i n : TxnIndex} {capturedReads : List (K × ReadKind)} {outcome : ReadOutcome V} {kind : ReadKind}
    {next : VmResult (Option (List UInt8)) → Program K (ExecutionStatus (TransactionOutput K V) E)}
    (h : Reached block log i capturedReads (.read key next)) (hwritten : Written log state.versionedDataCache)
    (hread : state.versionedDataCache.read block.bcs key n = .ok outcome)
    (hkind : ReadKind.ofOutcome outcome = some kind) :
    Reached block log i (capturedReads ++ [(key, kind)]) (next (observe block.bcs (block.storage key) outcome)) := by
  obtain ⟨reads, hcaptured, hcaptures⟩ := h
  refine ⟨reads ++ [(key, outcome)], ?_, ?_⟩
  · intro r hr
    rcases List.mem_append.mp hr with hr | hr
    · obtain ⟨hshows, kind', hkind', hmem⟩ := hcaptured r hr
      exact ⟨hshows, kind', hkind', List.mem_append_left _ hmem⟩
    · obtain rfl := List.mem_singleton.mp hr
      refine ⟨?_, kind, hkind, List.mem_append_right _ List.mem_cons_self⟩
      intro version data heq
      obtain ⟨idx, incarnation⟩ := version
      dsimp only at heq
      rw [heq] at hread
      exact hwritten key idx .done incarnation data (read_version hread)
  · intro rest status hrest
    rw [List.append_assoc]
    exact hcaptures _ status (.read hrest)

omit [DecidableEq K] in
theorem Reached.recorded {i : TxnIndex} {capturedReads : List (K × ReadKind)}
    {status : ExecutionStatus (TransactionOutput K V) E} (h : Reached block log i capturedReads (.ret status)) :
    Recorded block log i capturedReads status := by
  obtain ⟨reads, hcaptured, hcaptures⟩ := h
  refine ⟨reads, hcaptured, ?_⟩
  have hstatus := hcaptures [] status (.ret status)
  rwa [List.append_nil] at hstatus

/-- Nothing is entered yet. -/
theorem Aborted.applying (h : Aborted log state version)
    (hrecorded : Recorded block log version.1 result.capturedReads result.status) :
    Applying block log state version result (result.status.updates.map Prod.fst) (state.modifiedKeys version.1) := by
  refine ⟨hrecorded, ?_, ?_, ?_⟩
  · have hfresh : (fun key => if key ∈ result.status.updates.map Prod.fst then none else result.status.update? key) =
        fun _ => none := by
      funext key
      split
      · rfl
      · next hkey => exact ExecutionStatus.update?_eq_none.mpr hkey
    rw [hfresh]
    exact h.column
  · intro key incarnation hle
    exact h.unwritten key incarnation ((Nat.le_succ _).trans hle)
  · intro key hkey
    exact h.unwritten key version.2 (Nat.le_refl _)

/-- The next update is entered. -/
theorem Applying.apply {update : Update V} {updates applied : List (K × Update V)} {old : Finset K}
    (h : Applying block log state version result (((key, update) :: updates).map Prod.fst) old)
    (hsplit : result.status.updates = applied ++ (key, update) :: updates)
    (happly : applyUpdate state.versionedDataCache version key update = .ok m')
    (hwritten : Written log state.versionedDataCache) :
    Advance log (log.record key version update) state (state.setCache m') version.1 ∧
      Applying block (log.record key version update) (state.setCache m') version result (updates.map Prod.fst)
        (old.erase key) := by
  obtain ⟨hentry, hsame⟩ := applyUpdate_ok happly
  obtain ⟨hupdate, hnext⟩ := ExecutionStatus.update?_next hsplit
  have hnone := h.unwrittenLeft key List.mem_cons_self
  have hextends := Log.extends_record hnone update
  have hsameAt : ∀ k, k ≠ key → m'.entry k version.1 = state.versionedDataCache.entry k version.1 :=
    fun k hk => hsame k version.1 (Or.inl hk)
  have hfresh : ∀ k, k ≠ key → (k ∈ ((key, update) :: updates).map Prod.fst ↔ k ∈ updates.map Prod.fst) := by
    intro k hk
    rw [List.map_cons, List.mem_cons]
    exact or_iff_right hk
  constructor
  · apply Advance.setCache hextends ?_ hsame (hwritten.record hentry hsame hnone)
    intro j hj k incarnation
    exact Log.record_of_ne log update (Or.inr fun heq => hj (congrArg Prod.fst heq))
  · refine ⟨h.recorded.extend hextends, ?_, ?_, ?_⟩
    · apply h.column.change hsameAt
      · intro k hk
        exact if_congr (hfresh k hk).symm rfl rfl
      · intro k hk
        simp [hk]
      · intro u hu
        rw [if_neg hnext, hupdate] at hu
        obtain rfl := Option.some.inj hu
        exact hentry
      · intro hold
        exact absurd hold (Finset.notMem_erase key old)
      · intro _ hu
        rw [if_neg hnext, hupdate] at hu
        cases hu
    · intro k incarnation hle
      rw [Log.record_of_ne log update (Or.inr ?_)]
      · exact h.unwritten k incarnation hle
      · intro heq
        have hinc : incarnation = version.2 := congrArg Prod.snd heq
        rw [hinc] at hle
        exact Nat.not_succ_le_self _ hle
    · intro k hk
      have hne : k ≠ key := fun heq => hnext (heq ▸ hk)
      rw [Log.record_of_ne log update (Or.inl hne)]
      exact h.unwrittenLeft k ((hfresh k hne).mpr hk)

/-- What would make the assertion fail is not in the map. -/
theorem Applying.applies {update : Update V} {updates : List (K × Update V)} {old : Finset K} {err : Failure}
    (h : Applying block log state version result (((key, update) :: updates).map Prod.fst) old) :
    applyUpdate state.versionedDataCache version key update ≠ .error err := by
  intro happly
  obtain ⟨flag, cell, hentry, hnot⟩ := applyUpdate_error happly
  by_cases hold : key ∈ old
  · obtain ⟨cell', hcell', hbefore⟩ := h.column.estimated key hold
    rw [hentry] at hcell'
    obtain ⟨-, rfl⟩ := Entry.mk.inj (Option.some.inj hcell')
    exact hnot hbefore
  · have hnone := h.column.untouched key hold (if_pos List.mem_cons_self)
    rw [hentry] at hnone
    cases hnone

/-- An entry of an earlier incarnation is deleted. -/
theorem Applying.delete {old : Finset K} (h : Applying block log state version result [] old) (hmem : key ∈ old)
    (hdelete : state.versionedDataCache.delete key version.1 = .ok m')
    (hwritten : Written log state.versionedDataCache) :
    Advance log log state (state.setCache m') version.1 ∧
      Applying block log (state.setCache m') version result [] (old.erase key) := by
  obtain ⟨hentry, hsame⟩ := delete_ok hdelete
  have hsameAt : ∀ k, k ≠ key → m'.entry k version.1 = state.versionedDataCache.entry k version.1 :=
    fun k hk => hsame k version.1 (Or.inl hk)
  obtain ⟨cell, hcell, -⟩ := h.column.estimated key hmem
  constructor
  · apply Advance.setCache log.extends_refl (fun _ _ _ _ => rfl) hsame
    apply hwritten.change hsame
    intro e' he'
    rw [hentry] at he'
    cases he'
  · refine ⟨h.recorded, ?_, h.unwritten, h.unwrittenLeft⟩
    apply h.column.change hsameAt
    · exact fun _ _ => rfl
    · intro k hk
      simp [hk]
    · intro u hu
      -- what is deleted is an estimate, and fresh entries are none
      have hfresh := h.column.entered key u hu
      rw [hcell] at hfresh
      cases hfresh
    · intro hold
      exact absurd hold (Finset.notMem_erase key old)
    · exact fun _ _ => hentry

/-- All entries are there. -/
theorem Applying.complete (h : Applying block log state version result [] ∅)
    (hinput : state.inputs version.1 = some result.capturedReads) :
    Complete block log
      { state with outputs := Function.update state.outputs version.1 (some result.status) } version :=
  ⟨⟨result.status, result.capturedReads, Function.update_self .., hinput, h.recorded, h.column⟩, h.unwritten⟩

theorem Complete.inputs (h : Complete block log state version) : state.inputs version.1 ≠ none := by
  obtain ⟨status, readSet, -, hinput, -⟩ := h.recorded
  rw [hinput]
  exact nofun

/-- The entries that are to be marked are complete. -/
theorem Complete.marking (h : Complete block log state version) :
    Marking log state version (state.modifiedKeys version.1) := by
  obtain ⟨status, readSet, houtput, -, -, hcolumn⟩ := h.recorded
  have hkeys : state.modifiedKeys version.1 = status.modifiedKeys.toFinset := by
    unfold ExecutorState.modifiedKeys
    rw [houtput]
  refine ⟨subset_rfl, ⟨status.update?, ?_, ?_⟩, h.unwritten⟩
  · intro key
    rw [hkeys, List.mem_toFinset]
    exact ExecutionStatus.update?_eq_none
  · rw [Finset.sdiff_self]
    exact ⟨hcolumn.entered, fun key hkey => absurd hkey (Finset.notMem_empty key), hcolumn.untouched⟩

omit [TransactionWrite V] in
/-- A complete entry is marked. -/
theorem Marking.mark {keys : Finset K} (h : Marking log state version keys) (hmem : key ∈ keys)
    (hmark : state.versionedDataCache.markEstimate key version.1 = .ok m')
    (hwritten : Written log state.versionedDataCache) :
    Advance log log state (state.setCache m') version.1 ∧ Marking log (state.setCache m') version (keys.erase key) := by
  obtain ⟨e, hentry, hmarked, hsame⟩ := markEstimate_ok hmark
  obtain ⟨fresh, hfresh, hcolumn⟩ := h.column
  have hsameAt : ∀ k, k ≠ key → m'.entry k version.1 = state.versionedDataCache.entry k version.1 :=
    fun k hk => hsame k version.1 (Or.inl hk)
  constructor
  · apply Advance.setCache log.extends_refl (fun _ _ _ _ => rfl) hsame
    apply hwritten.change hsame
    intro e' he'
    rw [hmarked] at he'
    obtain rfl := Option.some.inj he'
    exact ⟨e, hentry, rfl⟩
  · refine ⟨(Finset.erase_subset _ _).trans h.subset, ⟨fun k => if k = key then none else fresh k, ?_, ?_⟩,
      h.unwritten⟩
    · intro k
      dsimp only
      rw [Finset.mem_erase]
      split
      · next hk => simp [hk]
      · next hk => simp [hk, hfresh k]
    · apply hcolumn.change hsameAt
      · intro k hk
        exact if_neg hk
      · intro k hk
        change k ∈ state.modifiedKeys version.1 \ keys.erase key ↔ _
        simp [hk]
      · intro u hu
        rw [if_pos rfl] at hu
        cases hu
      · intro _
        have hsome : fresh key ≠ none := fun hnone => (hfresh key).mp hnone hmem
        obtain ⟨u, hu⟩ := Option.ne_none_iff_exists'.mp hsome
        have hdone := hcolumn.entered key u hu
        rw [hentry] at hdone
        obtain rfl := Option.some.inj hdone
        refine ⟨_, hmarked, ?_⟩
        cases u with
        | write data => exact Nat.lt_succ_self version.2
        | delta op => trivial
      · intro hnot
        exact absurd (Finset.mem_sdiff.mpr ⟨h.subset hmem, Finset.notMem_erase key keys⟩) hnot

omit [TransactionWrite V] in
/-- What is to be marked is in the map. -/
theorem Marking.marks {keys : Finset K} {err : Failure} (h : Marking log state version keys) (hmem : key ∈ keys) :
    state.versionedDataCache.markEstimate key version.1 ≠ .error err := by
  intro hmark
  obtain ⟨fresh, hfresh, hcolumn⟩ := h.column
  have hsome : fresh key ≠ none := fun hnone => (hfresh key).mp hnone hmem
  obtain ⟨u, hu⟩ := Option.ne_none_iff_exists'.mp hsome
  have hentry := hcolumn.entered key u hu
  rw [markEstimate_error hmark] at hentry
  cases hentry

omit [TransactionWrite V] in
/-- When all entries are marked, the next incarnation can begin. -/
theorem Marking.aborted (h : Marking log state version ∅) : Aborted log state (version.1, version.2 + 1) := by
  obtain ⟨fresh, hfresh, hcolumn⟩ := h.column
  have hnone : fresh = fun _ => none := funext fun key => (hfresh key).mpr (Finset.notMem_empty key)
  rw [hnone, Finset.sdiff_empty] at hcolumn
  exact ⟨⟨nofun, hcolumn.estimated, hcolumn.untouched⟩, h.unwritten⟩

end Steps

section Work

variable [DecidableEq K] [DecidableEq P] [TransactionWrite V] {block : Block K V E P} {log : Log K V}
  {state state' : ExecutorState K V E P} {version : Version} {work work' : Work K V E P}

omit [DecidableEq P] in
/-- Nothing but the record of the module paths changes. -/
theorem Executing.same (h : Executing block log state version work)
    (hcache : state'.versionedDataCache = state.versionedDataCache) (hinputs : state'.inputs = state.inputs)
    (houtputs : state'.outputs = state.outputs) (hscheduler : state'.scheduler = state.scheduler)
    (hwritten : Written log state.versionedDataCache) :
    Advance log log state state' version.1 ∧ Executing block log state' version work := by
  have hsame : ∀ i, SameAt log log state state' i := by
    intro i
    refine ⟨?_, congrFun hinputs i, congrFun houtputs i, fun _ _ => rfl⟩
    intro key
    rw [hcache]
  refine ⟨⟨log.extends_refl, fun i _ => hsame i, hscheduler, ?_, ?_⟩, h.frame log.extends_refl (hsame _)⟩
  · rw [hinputs]
    exact id
  · rw [hcache]
    exact hwritten

/-- A step of `execute` keeps what is true while a version is executed, and does not fail. -/
theorem ExecuteStep.executing (h : ExecuteStep block version state work state' work')
    (hwork : Executing block log state version work) (hwritten : Written log state.versionedDataCache) :
    ∃ log', Advance log log' state state' version.1 ∧ Executing block log' state' version work' := by
  cases h with
  | read h hkind => exact ⟨log, .refl hwritten, hwork.1, hwork.2.read hwritten h hkind⟩
  | dependency hlt => exact ⟨log, .refl hwritten, hlt, hwork⟩
  | readPanics => exact ⟨log, .refl hwritten, trivial⟩
  | «return» => exact ⟨log, .refl hwritten, hwork.1, hwork.2.recorded⟩
  | loadModified => exact ⟨log, .refl hwritten, ⟨[], rfl⟩, hwork.1.applying hwork.2⟩
  | @apply result key update updates _ _ _ h =>
      obtain ⟨⟨applied, hsplit⟩, happlying⟩ := hwork
      obtain ⟨hadvance, hnext⟩ := happlying.apply hsplit h hwritten
      refine ⟨_, hadvance, ⟨applied ++ [(key, update)], ?_⟩, hnext⟩
      rw [List.append_assoc]
      exact hsplit
  | applyFails h => exact absurd h hwork.2.applies
  | applied => exact ⟨log, .refl hwritten, hwork.2⟩
  | delete hmem h =>
      obtain ⟨hadvance, hnext⟩ := Applying.delete hwork hmem h hwritten
      exact ⟨log, hadvance, hnext⟩
  | deleteFails hmem h =>
      obtain ⟨cell, hcell, -⟩ := Column.estimated (Applying.column hwork) _ hmem
      rw [delete_error h] at hcell
      cases hcell
  | deleted => exact ⟨log, .refl hwritten, hwork⟩
  | intersected => exact ⟨log, .refl hwritten, hwork⟩
  | notIntersected => exact ⟨log, .refl hwritten, hwork⟩
  | @append result updatesOutside access accesses =>
      have hexecuting : Executing block log state version (.checking result updatesOutside access accesses) := hwork
      exact ⟨log, by cases access <;> exact hexecuting.same rfl rfl rfl rfl hwritten⟩
  | clash => exact ⟨log, .refl hwritten, hwork⟩
  | noClash => exact ⟨log, .refl hwritten, hwork⟩
  | @raise result updatesOutside =>
      have hexecuting : Executing block log state version (.storeInput result updatesOutside) := hwork
      exact ⟨log, hexecuting.same rfl rfl rfl rfl hwritten⟩
  | appended => exact ⟨log, .refl hwritten, hwork⟩
  | @storeInput result updatesOutside =>
      have happlying : Applying block log state version result [] ∅ := hwork
      refine ⟨log, ⟨log.extends_refl, ?_, rfl, ?_, hwritten⟩, ?_, Function.update_self ..⟩
      · intro j hj
        exact ⟨fun _ => rfl, Function.update_of_ne hj _ _, rfl, fun _ _ => rfl⟩
      · dsimp only
        rw [Function.update_self]
        exact fun _ => nofun
      · exact ⟨happlying.recorded, happlying.column, happlying.unwritten, happlying.unwrittenLeft⟩
  | storeOutput =>
      refine ⟨log, ⟨log.extends_refl, ?_, rfl, id, hwritten⟩, hwork.1.complete hwork.2⟩
      intro j hj
      exact ⟨fun _ => rfl, rfl, Function.update_of_ne hj _ _, fun _ _ => rfl⟩

omit [DecidableEq K] [DecidableEq P] in
/-- A step of `validate` keeps what is true while a version is validated, and changes nothing. -/
theorem ValidateStep.validating (h : ValidateStep block version state work state' work')
    (hwork : Validating state version work) (hinputs : state.inputs version.1 ≠ none) :
    state' = state ∧ Validating state version work' := by
  cases h with
  | loadReadSet h => exact ⟨rfl, fun _ => ⟨[], h⟩⟩
  | noReadSet h => exact absurd h hinputs
  | @valid descriptor readSet =>
      refine ⟨rfl, fun hexecuted => ?_⟩
      obtain ⟨checked, hchecked⟩ := hwork hexecuted
      refine ⟨checked ++ [descriptor], ?_⟩
      rw [List.append_assoc]
      exact hchecked
  | invalid => exact ⟨rfl, trivial⟩
  | dependency => exact ⟨rfl, trivial⟩
  | readPanics => exact ⟨rfl, trivial⟩

omit [DecidableEq P] in
/-- A step of the abort keeps what is true while the entries are marked, and does not fail. -/
theorem AbortStep.aborting (h : AbortStep version state work state' work')
    (hwork : Aborting block log state version work) (hwritten : Written log state.versionedDataCache) :
    Advance log log state state' version.1 ∧ Aborting block log state' version work' := by
  cases h with
  | loadModified => exact ⟨.refl hwritten, Complete.marking hwork⟩
  | mark hmem h => exact Marking.mark hwork hmem h hwritten
  | markFails hmem h => exact absurd h (Marking.marks hwork hmem)

end Work

end MoveTutorial.Executor
