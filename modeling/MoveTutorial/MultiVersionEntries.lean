import MoveTutorial.ExecutorModel

/-! The entries of the multi-version map, one at a time. An update, a mark and a deletion change one entry. A read
depends on the entries below the reader, and of those on none below the first estimate. -/

namespace MoveTutorial.Executor

open Results

variable {K V : Type} {m m' : MVHashMap K V} {key k : K} {idx i j n : TxnIndex}

/-- The entry of a transaction under a key. -/
def MVHashMap.entry (self : MVHashMap K V) (key : K) (idx : TxnIndex) : Option (Entry V) :=
  (self.data key).bind fun tree => tree idx

/-- All entries but one are the same. -/
def SameElsewhere (m m' : MVHashMap K V) (key : K) (idx : TxnIndex) : Prop :=
  ∀ k i, k ≠ key ∨ i ≠ idx → m'.entry k i = m.entry k i

/-- What a version writes for an update. -/
def Update.cell (update : Update V) (incarnation : Incarnation) : EntryCell V :=
  match update with
  | .write data => .write incarnation data
  | .delta op => .delta op

@[simp] theorem Update.cell_update (update : Update V) (incarnation : Incarnation) :
    (update.cell incarnation).update = update := by
  cases update <;> rfl

/-- The entry is no write of the incarnation or a later one. -/
def EntryCell.Before (cell : EntryCell V) (bound : Incarnation) : Prop :=
  match cell with
  | .write incarnation _ => incarnation < bound
  | .delta _ => True

/-! ### Changes of one entry -/

section Changes

variable [DecidableEq K] {version : Version} {update : Update V}

theorem entry_setEntry (self : MVHashMap K V) (key : K) (idx : TxnIndex) (e : Entry V) :
    (self.setEntry key idx e).entry key idx = some e := by
  simp [MVHashMap.setEntry, MVHashMap.entry]

theorem sameElsewhere_setEntry (self : MVHashMap K V) (key : K) (idx : TxnIndex) (e : Entry V) :
    SameElsewhere self (self.setEntry key idx e) key idx := by
  intro k i hne
  unfold MVHashMap.entry MVHashMap.setEntry
  dsimp only
  by_cases hk : k = key
  · have hi : i ≠ idx := hne.resolve_left (not_not_intro hk)
    rw [hk, Function.update_self, Option.bind_some, Function.update_of_ne hi]
    cases self.data key with
    | none => rfl
    | some tree => rfl
  · rw [Function.update_of_ne hk]

/-- An update is entered, complete. -/
theorem applyUpdate_ok (h : applyUpdate m version key update = .ok m') :
    m'.entry key version.1 = some ⟨.done, update.cell version.2⟩ ∧ SameElsewhere m m' key version.1 := by
  cases update with
  | delta op =>
      obtain rfl := Except.ok.inj h
      exact ⟨entry_setEntry .., sameElsewhere_setEntry _ _ _ _⟩
  | write data =>
      rw [applyUpdate, MVHashMap.addWrite] at h
      split at h
      · split at h
        · obtain rfl := Except.ok.inj h
          exact ⟨entry_setEntry .., sameElsewhere_setEntry _ _ _ _⟩
        · cases h
      · obtain rfl := Except.ok.inj h
        exact ⟨entry_setEntry .., sameElsewhere_setEntry _ _ _ _⟩

/-- The assertion fails only at a write that is not of an earlier incarnation. -/
theorem applyUpdate_error {err : Failure} (h : applyUpdate m version key update = .error err) :
    ∃ flag cell, m.entry key version.1 = some ⟨flag, cell⟩ ∧ ¬cell.Before version.2 := by
  cases update with
  | delta op => cases h
  | write data =>
      rw [applyUpdate, MVHashMap.addWrite] at h
      split at h
      · next flag incarnation data' hentry =>
          split at h
          · cases h
          · next hnot => exact ⟨flag, .write incarnation data', hentry, hnot⟩
      · cases h

theorem markEstimate_ok (h : m.markEstimate key idx = .ok m') :
    ∃ e, m.entry key idx = some e ∧ m'.entry key idx = some ⟨.estimate, e.cell⟩ ∧ SameElsewhere m m' key idx := by
  unfold MVHashMap.markEstimate at h
  split at h
  · next e hentry =>
      obtain rfl := Except.ok.inj h
      exact ⟨e, hentry, entry_setEntry .., sameElsewhere_setEntry _ _ _ _⟩
  · cases h

theorem markEstimate_error {err : Failure} (h : m.markEstimate key idx = .error err) : m.entry key idx = none := by
  unfold MVHashMap.markEstimate at h
  split at h
  · cases h
  · next hentry => exact hentry

theorem delete_ok (h : m.delete key idx = .ok m') : m'.entry key idx = none ∧ SameElsewhere m m' key idx := by
  unfold MVHashMap.delete at h
  split at h
  · next tree htree =>
      obtain rfl := Except.ok.inj h
      refine ⟨by simp [MVHashMap.entry], ?_⟩
      intro k i hne
      unfold MVHashMap.entry
      dsimp only
      by_cases hk : k = key
      · have hi : i ≠ idx := hne.resolve_left (not_not_intro hk)
        rw [hk, Function.update_self, htree, Option.bind_some, Option.bind_some, Function.update_of_ne hi]
      · rw [Function.update_of_ne hk]
  · cases h

theorem delete_error {err : Failure} (h : m.delete key idx = .error err) : m.entry key idx = none := by
  unfold MVHashMap.delete at h
  unfold MVHashMap.entry
  split at h
  · cases h
  · next hdata =>
      rw [hdata]
      rfl

end Changes

/-! ### Reads -/

section Reads

variable [TransactionWrite V] {bcs : Bcs} {accumulator : Option DeltaOp} {outcome : ReadOutcome V} {kind : ReadKind}
  {descriptor : K × ReadKind}

theorem read_eq (m : MVHashMap K V) (bcs : Bcs) (key : K) (n : TxnIndex) :
    m.read bcs key n = MVHashMap.readLoop bcs (m.entriesBelow key n).reverse none := by
  unfold MVHashMap.read MVHashMap.entriesBelow
  cases m.data key with
  | none => rfl
  | some tree => simp [Tree.ascending]

omit [TransactionWrite V] in
theorem reverse_entriesBelow_succ (m : MVHashMap K V) (key : K) (n : TxnIndex) :
    (m.entriesBelow key (n + 1)).reverse =
      ((m.entry key n).map fun e => (n, e)).toList ++ (m.entriesBelow key n).reverse := by
  rw [entriesBelow_succ, List.reverse_append]
  congr 1
  unfold MVHashMap.entry
  cases (m.data key).bind fun tree => tree n <;> rfl

omit [TransactionWrite V] in
theorem entriesBelow_congr (h : ∀ i < n, m'.entry key i = m.entry key i) :
    m'.entriesBelow key n = m.entriesBelow key n := by
  induction n with
  | zero =>
      unfold MVHashMap.entriesBelow
      cases m.data key <;> cases m'.data key <;> rfl
  | succ n ih =>
      have hn := h n (Nat.lt_succ_self n)
      unfold MVHashMap.entry at hn
      rw [entriesBelow_succ, entriesBelow_succ, ih fun i hi => h i (hi.trans (Nat.lt_succ_self n)), hn]

/-- A read depends on the entries below the reader. -/
theorem read_congr (h : ∀ i < n, m'.entry key i = m.entry key i) : m'.read bcs key n = m.read bcs key n := by
  rw [read_eq, read_eq, entriesBelow_congr h]

/-- The loop never passes an estimate: what it returns does not depend on what is there. -/
theorem readLoop_kept {cell : EntryCell V} (hj : m.entry key j = some ⟨.estimate, cell⟩) (hlt : j < n)
    (hsame : ∀ i, i ≠ j → m'.entry key i = m.entry key i)
    (h : MVHashMap.readLoop bcs (m.entriesBelow key n).reverse accumulator = .ok outcome)
    (hkind : ReadKind.ofOutcome outcome = some kind) :
    MVHashMap.readLoop bcs (m'.entriesBelow key n).reverse accumulator = .ok outcome := by
  induction n generalizing accumulator with
  | zero => cases hlt
  | succ n ih =>
      rw [reverse_entriesBelow_succ] at h ⊢
      by_cases hn : n = j
      · rw [hn, hj] at h
        obtain rfl : Except.error (.dependency j) = outcome := by
          cases accumulator <;> exact Except.ok.inj h
        cases hkind
      · have hlt' : j < n := Nat.lt_of_le_of_ne (Nat.le_of_lt_succ hlt) (Ne.symm hn)
        rw [hsame n hn]
        cases hentry : m.entry key n with
        | none =>
            rw [hentry] at h
            exact ih hlt' h
        | some e =>
            rw [hentry] at h
            obtain ⟨flag, cell'⟩ := e
            simp only [Option.map_some, Option.toList_some, List.singleton_append] at h ⊢
            cases flag with
            | estimate => cases accumulator <;> exact h
            | done =>
                cases cell' with
                | write incarnation data => cases accumulator <;> exact h
                | delta delta =>
                    cases accumulator with
                    | none =>
                        simp only [MVHashMap.readLoop] at h ⊢
                        exact ih hlt' h
                    | some accumulator =>
                        simp only [MVHashMap.readLoop] at h ⊢
                        cases hmerge : accumulator.mergeOnto delta with
                        | error err =>
                            rw [hmerge] at h
                            exact h
                        | ok merged =>
                            rw [hmerge] at h
                            exact ih hlt' h

theorem validateRead_eq_true :
    validateRead bcs m n descriptor = .ok true ↔
      ∃ outcome, m.read bcs descriptor.1 n = .ok outcome ∧ ReadKind.ofOutcome outcome = some descriptor.2 := by
  unfold validateRead
  simp only [bind_eq_ok, pure_eq_ok, decide_eq_true_eq]

/-- **Valid reads survive.** A change of an entry at or above the reader, or of an estimate, keeps the reads that are
valid. -/
theorem validateRead_kept (hsame : SameElsewhere m m' key j)
    (hchange : n ≤ j ∨ ∃ cell, m.entry key j = some ⟨.estimate, cell⟩)
    (h : validateRead bcs m n descriptor = .ok true) : validateRead bcs m' n descriptor = .ok true := by
  rw [validateRead_eq_true] at h ⊢
  obtain ⟨outcome, hread, hkind⟩ := h
  refine ⟨outcome, ?_, hkind⟩
  by_cases hunread : descriptor.1 ≠ key ∨ n ≤ j
  · rw [← hread]
    apply read_congr
    intro i hi
    apply hsame
    exact hunread.imp_right fun hle => (hi.trans_le hle).ne
  · obtain ⟨hkey, hlt⟩ := not_or.mp hunread
    obtain rfl := not_not.mp hkey
    obtain ⟨cell, hcell⟩ := hchange.resolve_left hlt
    rw [read_eq] at hread ⊢
    exact readLoop_kept hcell (Nat.lt_of_not_le hlt) (fun i hi => hsame _ i (Or.inr hi)) hread hkind

/-- The version of a read is that of an entry. -/
theorem readLoop_version {entries : List (TxnIndex × Entry V)} {incarnation : Incarnation} {data : V}
    (h : MVHashMap.readLoop bcs entries accumulator = .ok (.ok (.version (idx, incarnation) data))) :
    (idx, ⟨.done, .write incarnation data⟩) ∈ entries := by
  induction entries generalizing accumulator with
  | nil => cases accumulator <;> cases h
  | cons e entries ih =>
      obtain ⟨idx', flag, cell⟩ := e
      cases flag with
      | estimate => cases accumulator <;> cases h
      | done =>
          cases cell with
          | delta delta =>
              cases accumulator with
              | none => exact List.mem_cons_of_mem _ (ih h)
              | some accumulator =>
                  simp only [MVHashMap.readLoop] at h
                  cases hmerge : accumulator.mergeOnto delta with
                  | error err => rw [hmerge] at h; cases h
                  | ok merged =>
                      rw [hmerge] at h
                      exact List.mem_cons_of_mem _ (ih h)
          | write incarnation' data' =>
              cases accumulator with
              | none =>
                  cases h
                  exact List.mem_cons_self
              | some accumulator =>
                  obtain ⟨maybeValue, -, hrest⟩ := bind_eq_ok.mp h
                  cases maybeValue with
                  | none =>
                      cases hrest
                      exact List.mem_cons_self
                  | some value =>
                      dsimp only at hrest
                      cases happly : accumulator.applyTo value with
                      | error err => rw [happly] at hrest; cases hrest
                      | ok result => rw [happly] at hrest; cases hrest

theorem read_version {incarnation : Incarnation} {data : V}
    (h : m.read bcs key n = .ok (.ok (.version (idx, incarnation) data))) :
    m.entry key idx = some ⟨.done, .write incarnation data⟩ := by
  rw [read_eq] at h
  exact (mem_entriesBelow (List.mem_reverse.mp (readLoop_version h))).2

end Reads

end MoveTutorial.Executor
