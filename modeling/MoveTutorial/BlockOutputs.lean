import MoveTutorial.ExecutorModel

/-! The outputs of a block with the writes that its deltas are materialized to. If the map holds what the transactions
returned, these are the writes that the entries lead to one after the other. -/

namespace MoveTutorial.Executor

open Results

section Outputs

variable {K E P : Type} [DecidableEq K] {bcs : Bcs} {m : MVHashMap K WriteOp} {storage : K → Option (List UInt8)}
  {keys : List K} {ret : List (TxnIndex × K × WriteOp)} {n i : TxnIndex} {key : K} {limit : K → ℕ}
  {status : TxnIndex → ExecutionStatus (TransactionOutput K WriteOp) E} {output : TransactionOutput K WriteOp}
  {outputs : List (TransactionOutput K WriteOp)} {writeSet : WriteSet K} {writeSets : List (WriteSet K)}

omit [DecidableEq K] in
/-- The writes of a key are those of its entries. -/
theorem resolve_ok (h : m.resolve bcs storage n keys = .ok ret) :
    (∀ key ∈ keys, ∃ tree writes, m.data key = some tree ∧ resolveKey bcs tree (.ok (storage key)) n = .ok writes ∧
      ∀ w ∈ writes, (w.1, key, w.2) ∈ ret) ∧
    ∀ w ∈ ret, ∃ tree writes, m.data w.2.1 = some tree ∧
      resolveKey bcs tree (.ok (storage w.2.1)) n = .ok writes ∧ (w.1, w.2.2) ∈ writes := by
  induction keys generalizing ret with
  | nil =>
      obtain rfl := Except.ok.inj h
      exact ⟨fun _ hkey => absurd hkey List.not_mem_nil, fun _ hw => absurd hw List.not_mem_nil⟩
  | cons key keys ih =>
      rw [MVHashMap.resolve] at h
      cases hdata : m.data key with
      | none => rw [hdata] at h; cases h
      | some tree =>
          rw [hdata] at h
          obtain ⟨writes, hwrites, hrest⟩ := bind_eq_ok.mp h
          obtain ⟨rest, hresolve, happend⟩ := bind_eq_ok.mp hrest
          obtain rfl := pure_eq_ok.mp happend
          obtain ⟨hcomplete, hsound⟩ := ih hresolve
          constructor
          · intro key' hkey'
            rcases List.mem_cons.mp hkey' with rfl | hkey'
            · exact ⟨tree, writes, hdata, hwrites, fun w hw => List.mem_append_left _ (List.mem_map_of_mem hw)⟩
            · obtain ⟨tree', writes', hdata', hwrites', hmem⟩ := hcomplete key' hkey'
              exact ⟨tree', writes', hdata', hwrites', fun w hw => List.mem_append_right _ (hmem w hw)⟩
          · intro w hw
            rcases List.mem_append.mp hw with hw | hw
            · obtain ⟨w', hw', rfl⟩ := List.mem_map.mp hw
              exact ⟨tree, writes, hdata, hwrites, hw'⟩
            · exact hsound w hw

omit [DecidableEq K] in
theorem mem_deltaWrites {w : K × WriteOp} : w ∈ deltaWrites ret i ↔ (i, w) ∈ ret := by
  rw [deltaWrites, List.mem_filterMap]
  constructor
  · rintro ⟨⟨idx, w'⟩, hmem, hsome⟩
    split at hsome
    · next heq =>
        obtain rfl : idx = i := heq
        obtain rfl := Option.some.inj hsome
        exact hmem
    · cases hsome
  · intro hmem
    exact ⟨_, hmem, if_pos rfl⟩

/-- The entries of the keys below the size of the block belong to the statuses. -/
structure Filled (m : MVHashMap K WriteOp) (limit : K → ℕ) (n : TxnIndex)
    (status : TxnIndex → ExecutionStatus (TransactionOutput K WriteOp) E) : Prop where
  small : ∀ key, limit key < 2 ^ 128
  holds : ∀ i < n, Holds m i (status i)
  valid : ∀ i < n, ValidUpdates limit (status i)

/-- What is resolved of a key is materialized. -/
theorem Filled.resolved (h : Filled m limit n status) {tree : Tree WriteOp} {writes : List (TxnIndex × WriteOp)}
    (hdata : m.data key = some tree) (hresolve : resolveKey bcs tree (.ok (storage key)) n = .ok writes) :
    (∃ final, replay bcs (tree.ascending n) (storage key) = .ok final) ∧
      ∀ w, w ∈ writes ↔ IsMaterialized bcs tree (storage key) n w := by
  have hvalid : ValidDeltas (limit key) (m.entriesBelow key n) := validDeltas_entriesBelow h.holds h.valid
  unfold MVHashMap.entriesBelow at hvalid
  rw [hdata] at hvalid
  exact resolveKey_ok (h.small key) hvalid hresolve

omit [DecidableEq K] in
theorem leadsTo_of_data {tree : Tree WriteOp} {entry : Option (List UInt8)} (hdata : m.data key = some tree) :
    LeadsTo bcs m storage key n entry ↔ replay bcs (tree.ascending n) (storage key) = .ok entry := by
  unfold LeadsTo MVHashMap.entriesBelow
  rw [hdata]

/-- An update of the status is an entry of the tree. -/
theorem Holds.tree {tree : Tree WriteOp} {status : ExecutionStatus (TransactionOutput K WriteOp) E}
    (h : Holds m i status) (hdata : m.data key = some tree) :
    (tree i).map (fun e => (e.flag, e.cell.update)) = (status.update? key).map fun update => (Flag.done, update) := by
  have hkey := h key
  rwa [hdata] at hkey

/-- If the deltas of a key could be materialized, its entries below an index lead to something. -/
theorem Filled.leads (h : Filled m limit n status) (hret : m.resolve bcs storage n keys = .ok ret) (hkey : key ∈ keys)
    (hi : i ≤ n) : ∃ entry, LeadsTo bcs m storage key i entry := by
  obtain ⟨tree, writes, hdata, hresolve, -⟩ := (resolve_ok hret).1 key hkey
  obtain ⟨⟨final, hfinal⟩, -⟩ := h.resolved hdata hresolve
  obtain ⟨after, hafter⟩ := tree.ascending_prefix hi
  rw [hafter, replay_append] at hfinal
  obtain ⟨entry, hreplay, -⟩ := bind_eq_ok.mp hfinal
  exact ⟨entry, (leadsTo_of_data hdata).mpr hreplay⟩

/-- A write of a delta belongs to an entry of the transaction. -/
theorem Filled.update_of_deltaWrite (h : Filled m limit n status) (hret : m.resolve bcs storage n keys = .ok ret)
    (hi : i < n) {w : WriteOp} (hw : (key, w) ∈ deltaWrites ret i) :
    (∃ op, (status i).update? key = some (.delta op)) ∧
      ∃ bytes, w = .modification bytes ∧ LeadsTo bcs m storage key (i + 1) (some bytes) := by
  obtain ⟨tree, writes, hdata, hresolve, hmem⟩ := (resolve_ok hret).2 _ (mem_deltaWrites.mp hw)
  obtain ⟨-, ⟨flag, op, htree⟩, bytes, hbytes, hreplay⟩ := ((h.resolved hdata hresolve).2 _).mp hmem
  refine ⟨⟨op, ?_⟩, bytes, hbytes, (leadsTo_of_data hdata).mpr hreplay⟩
  have hentry := (h.holds i hi).tree hdata
  rw [show tree i = some ⟨flag, .delta op⟩ from htree] at hentry
  obtain ⟨update, hupdate, hpair⟩ := Option.map_eq_some_iff.mp hentry.symm
  rw [hupdate, (Prod.mk.inj hpair).2]
  rfl

/-- And every delta of the transaction has a write. -/
theorem Filled.deltaWrite_of_update (h : Filled m limit n status) (hret : m.resolve bcs storage n keys = .ok ret)
    (hi : i < n) (hkey : key ∈ keys) {op : DeltaOp} (hupdate : (status i).update? key = some (.delta op)) :
    ∃ bytes, (key, .modification bytes) ∈ deltaWrites ret i := by
  obtain ⟨tree, writes, hdata, hresolve, hwrites⟩ := (resolve_ok hret).1 key hkey
  obtain ⟨entry, hleads⟩ := h.leads hret hkey (Nat.succ_le_of_lt hi)
  have hreplay := (leadsTo_of_data hdata).mp hleads
  have hentry := (h.holds i hi).tree hdata
  rw [hupdate, Option.map_some] at hentry
  obtain ⟨⟨flag, cell⟩, htree, hpair⟩ := Option.map_eq_some_iff.mp hentry
  cases cell with
  | write incarnation data => cases (Prod.mk.inj hpair).2
  | delta op' =>
      obtain ⟨bytes, rfl⟩ : ∃ bytes, entry = some bytes := by
        rw [tree.ascending_succ, htree, Option.map_some, Option.toList_some, replay_concat] at hreplay
        obtain ⟨middle, -, hmake⟩ := bind_eq_ok.mp hreplay
        obtain ⟨bytes, base, value, -, -, -, rfl⟩ := applyDelta_eq_ok.mp hmake
        exact ⟨_, rfl⟩
      refine ⟨bytes, mem_deltaWrites.mpr (hwrites (i, .modification bytes) ?_)⟩
      exact ((h.resolved hdata hresolve).2 _).mpr ⟨hi, ⟨flag, op', htree⟩, bytes, rfl, hreplay⟩

/-- The writes of an output, and those of its deltas. -/
theorem lookup_outputWithDeltaWrites {deltaWrites : List (K × WriteOp)}
    (h : output.outputWithDeltaWrites deltaWrites = .ok writeSet) (key : K) :
    writeSet key =
      (output.writes.lookup key).or (if output.deltas.isEmpty then none else deltaWrites.lookup key) := by
  unfold TransactionOutput.outputWithDeltaWrites at h
  split at h
  · next hempty =>
      obtain rfl := Except.ok.inj h
      rw [if_pos hempty, Option.or_none]
  · next hempty =>
      split at h
      · cases h
      · obtain rfl := Except.ok.inj h
        rw [if_neg hempty, TransactionOutput.mergeDeltaWrites, List.lookup_append]

/-- The writes of an output with its deltas are what the entries lead to. -/
theorem Filled.materializes (h : Filled m limit n status) (hret : m.resolve bcs storage n keys = .ok ret)
    (hi : i < n) (hupdate : ∀ key, (status i).update? key = output.updates.lookup key)
    (hkeys : ∀ key op, (key, op) ∈ output.deltas → key ∈ keys)
    (houtput : output.outputWithDeltaWrites (deltaWrites ret i) = .ok writeSet) :
    Materializes bcs m storage i output writeSet := by
  intro key
  have hwriteSet := lookup_outputWithDeltaWrites houtput key
  have hlookup := (hupdate key).trans (output.lookup_updates key)
  rw [TransactionOutput.lookup_updates]
  cases hwrite : output.writes.lookup key with
  | some data =>
      rw [hwrite] at hwriteSet
      exact hwriteSet
  | none =>
      rw [hwrite, Option.none_or] at hwriteSet
      rw [hwrite, Option.map_none, Option.none_or] at hlookup
      cases hdelta : output.deltas.lookup key with
      | none =>
          rw [hdelta] at hlookup
          apply hwriteSet.trans
          split
          · rfl
          · by_contra hsome
            obtain ⟨w, hw⟩ := Option.ne_none_iff_exists'.mp hsome
            obtain ⟨⟨op, hop⟩, -⟩ := h.update_of_deltaWrite hret hi (mem_of_lookup hw)
            cases hlookup.symm.trans hop
      | some op =>
          have hmem := mem_of_lookup hdelta
          have hdeltas : ¬output.deltas.isEmpty := by
            rw [List.isEmpty_iff]
            exact List.ne_nil_of_mem hmem
          rw [if_neg hdeltas] at hwriteSet
          rw [hdelta] at hlookup
          obtain ⟨bytes, hbytes⟩ := h.deltaWrite_of_update hret hi (hkeys key op hmem) hlookup
          obtain ⟨w, hw⟩ := lookup_of_mem hbytes
          obtain ⟨-, bytes', rfl, hleads⟩ := h.update_of_deltaWrite hret hi (mem_of_lookup hw)
          exact ⟨bytes', hwriteSet.trans hw, hleads⟩

end Outputs

end MoveTutorial.Executor
