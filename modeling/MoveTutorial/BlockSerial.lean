import MoveTutorial.BlockModel

/-! Validated blocks are serial. If every transaction of a block read what it would read from the final
multi-version map, and the map holds what the transactions returned, then the transactions returned what
they return when they are executed one after the other. -/

namespace MoveTutorial.Executor

open Results

variable {K V E : Type} [DecidableEq K] [TransactionWrite V] {bcs : Bcs}

/-- The program returns the output when its reads have these outcomes. -/
inductive Captures {Out : Type} (bcs : Bcs) (storage : K → Option (List UInt8)) :
    Program K Out → List (K × ReadOutcome V) → Out → Prop
  | ret (out : Out) : Captures bcs storage (.ret out) [] out
  | read {key : K} {next : VmResult (Option (List UInt8)) → Program K Out} {outcome : ReadOutcome V}
      {reads : List (K × ReadOutcome V)} {out : Out}
      (rest : Captures bcs storage (next (observe bcs (storage key) outcome)) reads out) :
      Captures bcs storage (.read key next) ((key, outcome) :: reads) out

/-- The map holds the updates of the status at the index, complete. -/
def Holds (m : MVHashMap K V) (idx : TxnIndex) (status : ExecutionStatus (TransactionOutput K V) E) : Prop :=
  ∀ key, ((m.data key).bind fun tree => tree idx).map (fun e => (e.flag, e.cell.update)) =
    (status.update? key).map fun update => (Flag.done, update)

/-- Every delta under the key records a walk within the limit of the key. -/
def ValidUpdates (limit : K → ℕ) (status : ExecutionStatus (TransactionOutput K V) E) : Prop :=
  ∀ key op, status.update? key = some (.delta op) → op.Valid ∧ op.limit = limit key

variable {m : MVHashMap K V} {storage state : K → Option (List UInt8)} {limit : K → ℕ} {n idx : TxnIndex} {key : K}
  {status : TxnIndex → ExecutionStatus (TransactionOutput K V) E}
  {programs : TxnIndex → Program K (ExecutionStatus (TransactionOutput K V) E)}

omit [DecidableEq K] in
/-- The program returns the same on a state that shows it the same. -/
theorem Captures.eval {Out : Type} {program : Program K Out} {reads : List (K × ReadOutcome V)} {out : Out}
    (h : Captures bcs storage program reads out)
    (hreads : ∀ r ∈ reads, observe bcs (storage r.1) r.2 = .ok (state r.1)) : program.eval state = out := by
  induction h with
  | ret out => rfl
  | read rest ih =>
      have hfirst := hreads _ List.mem_cons_self
      rw [Program.eval, ← hfirst]
      exact ih fun r hr => hreads r (List.mem_cons_of_mem _ hr)

omit [DecidableEq K] [TransactionWrite V] in
theorem entriesBelow_succ (m : MVHashMap K V) (key : K) (n : TxnIndex) :
    m.entriesBelow key (n + 1) =
      m.entriesBelow key n ++ (((m.data key).bind fun tree => tree n).map fun entry => (n, entry)).toList := by
  unfold MVHashMap.entriesBelow
  cases m.data key with
  | none => rfl
  | some tree => exact tree.ascending_succ n

omit [DecidableEq K] [TransactionWrite V] in
/-- The entries below an index are those of the transactions before it. -/
theorem mem_entriesBelow {e : TxnIndex × Entry V} (h : e ∈ m.entriesBelow key n) :
    e.1 < n ∧ ((m.data key).bind fun tree => tree e.1) = some e.2 := by
  induction n with
  | zero =>
      unfold MVHashMap.entriesBelow at h
      cases hdata : m.data key with
      | none => rw [hdata] at h; cases h
      | some tree => rw [hdata] at h; cases h
  | succ n ih =>
      rw [entriesBelow_succ, List.mem_append, Option.mem_toList, Option.map_eq_some_iff] at h
      rcases h with h | ⟨entry, hentry, rfl⟩
      · exact ⟨(ih h).1.trans (Nat.lt_succ_self n), (ih h).2⟩
      · exact ⟨Nat.lt_succ_self n, hentry⟩

omit [TransactionWrite V] in
theorem allDone_entriesBelow (hholds : ∀ i < n, Holds m i (status i)) : AllDone (m.entriesBelow key n) := by
  intro e he
  obtain ⟨hlt, hentry⟩ := mem_entriesBelow he
  have hupdate := hholds e.1 hlt key
  rw [hentry, Option.map_some] at hupdate
  obtain ⟨update, -, heq⟩ := Option.map_eq_some_iff.mp hupdate.symm
  exact (Prod.mk.inj heq).1.symm

omit [TransactionWrite V] in
theorem validDeltas_entriesBelow (hholds : ∀ i < n, Holds m i (status i))
    (hvalid : ∀ i < n, ValidUpdates limit (status i)) : ValidDeltas (limit key) (m.entriesBelow key n) := by
  intro idx flag op he
  obtain ⟨hlt, hentry⟩ := mem_entriesBelow he
  have hupdate := hholds idx hlt key
  rw [hentry, Option.map_some] at hupdate
  obtain ⟨update, hupdate', heq⟩ := Option.map_eq_some_iff.mp hupdate.symm
  obtain ⟨-, rfl⟩ := Prod.mk.inj heq
  exact hvalid idx hlt key op hupdate'

/-- Making the entry of a transaction is making its update. -/
theorem replay_succ (hholds : Holds m n (status n)) (entry : Option (List UInt8)) :
    replay bcs (m.entriesBelow key (n + 1)) entry =
      replay bcs (m.entriesBelow key n) entry >>= Update.make bcs ((status n).update? key) := by
  have hupdate := hholds key
  rw [entriesBelow_succ, replay_append]
  congr 1
  funext next
  cases hentry : (m.data key).bind fun tree => tree n with
  | none =>
      rw [hentry, Option.map_none, eq_comm, Option.map_eq_none_iff] at hupdate
      rw [hupdate]
      rfl
  | some e =>
      rw [hentry, Option.map_some, eq_comm, Option.map_eq_some_iff] at hupdate
      obtain ⟨update, hsome, heq⟩ := hupdate
      obtain ⟨-, rfl⟩ := Prod.mk.inj heq
      rw [hsome]
      simp only [Option.map_some, Option.toList_some, replay]
      cases e.cell with
      | write incarnation data => rfl
      | delta op =>
          simp only [EntryCell.make, EntryCell.update, Update.make]
          cases applyDelta bcs op next with
          | error err => exact error_bind err _
          | ok entry => rfl

/-! ### The outputs with their deltas applied -/

section Outputs

variable {output : TransactionOutput K WriteOp} {writeSet : WriteSet K}

omit [TransactionWrite V] in
theorem lookup_map_snd {α β : Type} (f : α → β) (l : List (K × α)) (key : K) :
    (l.map fun p => (p.1, f p.2)).lookup key = (l.lookup key).map f := by
  induction l with
  | nil => rfl
  | cons p l ih =>
      rw [List.map_cons, List.lookup_cons, List.lookup_cons]
      split
      · rfl
      · exact ih

omit [TransactionWrite V] in
theorem mem_of_lookup {α : Type} {l : List (K × α)} {v : α} (h : l.lookup key = some v) : (key, v) ∈ l := by
  obtain ⟨before, after, rfl, -⟩ := List.lookup_eq_some_iff.mp h
  simp

omit [TransactionWrite V] in
theorem lookup_of_mem {α : Type} {l : List (K × α)} {v : α} (h : (key, v) ∈ l) : ∃ v', l.lookup key = some v' := by
  rw [← Option.ne_none_iff_exists', Ne, List.lookup_eq_none_iff]
  intro hnone
  simpa using hnone _ h

omit [TransactionWrite V] in
/-- The update of a key is its write or its delta. -/
theorem TransactionOutput.lookup_updates (output : TransactionOutput K V) (key : K) :
    output.updates.lookup key =
      ((output.writes.lookup key).map .write).or ((output.deltas.lookup key).map .delta) := by
  rw [TransactionOutput.updates, List.lookup_append, lookup_map_snd, lookup_map_snd]

omit [TransactionWrite V] in
theorem TransactionOutput.lookup_of_mem_deltas {output : TransactionOutput K V} {key : K} {op : DeltaOp}
    (h : (key, op) ∈ output.deltas) : output.updates.lookup key = some (.delta op) := by
  have hnodup := List.nodup_append.mp output.nodup
  have hwrites : output.writes.lookup key = none := by
    rw [List.lookup_eq_none_iff]
    intro p hp
    have hne := hnodup.2.2 p.1 (List.mem_map_of_mem hp) key (List.mem_map_of_mem h)
    simpa using hne.symm
  obtain ⟨before, after, hsplit⟩ := List.append_of_mem h
  have hdeltas : output.deltas.lookup key = some op := by
    rw [List.lookup_eq_some_iff]
    refine ⟨before, after, hsplit, ?_⟩
    intro p hp
    have hdistinct := hnodup.2.1
    rw [hsplit, List.map_append, List.nodup_append] at hdistinct
    have hne := hdistinct.2.2 p.1 (List.mem_map_of_mem hp) key List.mem_cons_self
    simpa using hne.symm
  rw [lookup_updates, hwrites, hdeltas]
  rfl

/-- The write set has the writes of the output, and what its deltas make of the state. -/
def Applies (bcs : Bcs) (state : K → Option (List UInt8)) (output : TransactionOutput K WriteOp)
    (writeSet : WriteSet K) : Prop :=
  ∀ key, match output.updates.lookup key with
    | none => writeSet key = none
    | some (.write data) => writeSet key = some data
    | some (.delta op) =>
        ∃ bytes, writeSet key = some (.modification bytes) ∧ applyDelta bcs op (state key) = .ok (some bytes)

theorem tryIntoWriteOp_eq_ok {op : DeltaOp} {entry : Option (List UInt8)} {writeOp : WriteOp} :
    op.tryIntoWriteOp bcs (.ok entry) = .ok writeOp ↔
      ∃ bytes, writeOp = .modification bytes ∧ applyDelta bcs op entry = .ok (some bytes) := by
  unfold DeltaOp.tryIntoWriteOp applyDelta
  cases entry with
  | none => simp
  | some bytes =>
      simp only [bind_eq_ok, pure_eq_ok, Option.some.injEq]
      constructor
      · rintro ⟨base, hbase, result, hresult, rfl⟩
        exact ⟨_, rfl, base, hbase, result, hresult, rfl⟩
      · rintro ⟨bytes', rfl, base, hbase, result, hresult, rfl⟩
        exact ⟨base, hbase, result, hresult, rfl⟩

theorem tryIntoWriteSetMut_ok {deltas : List (K × DeltaOp)} {deltaWrites : List (K × WriteOp)}
    (h : tryIntoWriteSetMut bcs state deltas = .ok deltaWrites) (key : K) :
    match deltas.lookup key with
    | none => deltaWrites.lookup key = none
    | some op => ∃ bytes, deltaWrites.lookup key = some (.modification bytes) ∧
        applyDelta bcs op (state key) = .ok (some bytes) := by
  induction deltas generalizing deltaWrites with
  | nil =>
      obtain rfl := Except.ok.inj h
      rfl
  | cons delta deltas ih =>
      obtain ⟨writeOp, hwriteOp, hrest⟩ := bind_eq_ok.mp h
      obtain ⟨rest, hdeltas, hcons⟩ := bind_eq_ok.mp hrest
      obtain rfl := pure_eq_ok.mp hcons
      obtain ⟨bytes, rfl, happly⟩ := tryIntoWriteOp_eq_ok.mp hwriteOp
      rw [List.lookup_cons, List.lookup_cons]
      by_cases hkey : key = delta.1
      · rw [hkey, beq_self_eq_true]
        exact ⟨bytes, rfl, happly⟩
      · rw [beq_eq_false_iff_ne.mpr hkey]
        exact ih hdeltas

omit [DecidableEq K] in
theorem tryIntoWriteSetMut_error {deltas : List (K × DeltaOp)} {err : Failure}
    (h : tryIntoWriteSetMut bcs state deltas = .error err) :
    ∃ key op, (key, op) ∈ deltas ∧ ∀ entry, applyDelta bcs op (state key) ≠ .ok entry := by
  induction deltas generalizing err with
  | nil => cases h
  | cons delta deltas ih =>
      rw [tryIntoWriteSetMut] at h
      cases hwriteOp : delta.2.tryIntoWriteOp bcs (.ok (state delta.1)) with
      | error err' =>
          refine ⟨delta.1, delta.2, List.mem_cons_self, ?_⟩
          intro entry hentry
          obtain ⟨bytes, base, value, -, -, -, rfl⟩ := applyDelta_eq_ok.mp hentry
          rw [tryIntoWriteOp_eq_ok.mpr ⟨_, rfl, hentry⟩] at hwriteOp
          cases hwriteOp
      | ok writeOp =>
          rw [hwriteOp, ok_bind] at h
          cases hrest : tryIntoWriteSetMut bcs state deltas with
          | error err' =>
              obtain ⟨key, op, hmem, hnot⟩ := ih hrest
              exact ⟨key, op, List.mem_cons_of_mem _ hmem, hnot⟩
          | ok rest =>
              rw [hrest] at h
              cases h

theorem TransactionOutput.intoTransactionOutput_eq (output : TransactionOutput K WriteOp) (bcs : Bcs)
    (state : K → Option (List UInt8)) :
    output.intoTransactionOutput bcs state =
      match tryIntoWriteSetMut bcs state output.deltas with
      | .ok materializedDeltas => .ok (output.mergeDeltaWrites materializedDeltas)
      | .error _ => .error .panic := by
  unfold TransactionOutput.intoTransactionOutput
  split
  · next hempty =>
      rw [List.isEmpty_iff.mp hempty, tryIntoWriteSetMut]
      unfold TransactionOutput.mergeDeltaWrites
      simp
  · rfl

/-- The deltas are applied, all or none. -/
theorem intoTransactionOutput_ok (h : output.intoTransactionOutput bcs state = .ok writeSet) :
    Applies bcs state output writeSet := by
  rw [TransactionOutput.intoTransactionOutput_eq] at h
  cases hdeltas : tryIntoWriteSetMut bcs state output.deltas with
  | error err => rw [hdeltas] at h; cases h
  | ok deltaWrites =>
      rw [hdeltas] at h
      obtain rfl := Except.ok.inj h
      intro key
      have hkey := tryIntoWriteSetMut_ok hdeltas key
      rw [TransactionOutput.lookup_updates, TransactionOutput.mergeDeltaWrites, List.lookup_append]
      cases hwrite : output.writes.lookup key with
      | some data => rfl
      | none =>
          cases hdelta : output.deltas.lookup key with
          | none =>
              rw [hdelta] at hkey
              exact hkey
          | some op =>
              rw [hdelta] at hkey
              exact hkey

theorem intoTransactionOutput_error {err : Failure} (h : output.intoTransactionOutput bcs state = .error err) :
    err = .panic ∧ ∃ key op, output.updates.lookup key = some (.delta op) ∧
      ∀ entry, applyDelta bcs op (state key) ≠ .ok entry := by
  rw [TransactionOutput.intoTransactionOutput_eq] at h
  cases hdeltas : tryIntoWriteSetMut bcs state output.deltas with
  | ok deltaWrites => rw [hdeltas] at h; cases h
  | error err' =>
      rw [hdeltas] at h
      obtain ⟨key, op, hmem, hnot⟩ := tryIntoWriteSetMut_error hdeltas
      exact ⟨(Except.error.inj h).symm, key, op, TransactionOutput.lookup_of_mem_deltas hmem, hnot⟩

/-- The state with the write set is the state after the updates. -/
theorem Applies.push (h : Applies bcs state output writeSet) (key : K) :
    Update.make bcs (output.updates.lookup key) (state key) = .ok (pushWriteSet state writeSet key) := by
  have hkey := h key
  unfold pushWriteSet
  cases hupdate : output.updates.lookup key with
  | none =>
      rw [hupdate] at hkey
      rw [show writeSet key = none from hkey]
      rfl
  | some update =>
      rw [hupdate] at hkey
      cases update with
      | write data =>
          rw [show writeSet key = some data from hkey]
          rfl
      | delta op =>
          obtain ⟨bytes, hbytes, happly⟩ := hkey
          rw [hbytes]
          exact happly

end Outputs

/-! ### The final results -/

section Results

variable {T : Type} {statuses : List (ExecutionStatus (TransactionOutput K V) E)}
  {outputs : List (TransactionOutput K V)} {err : E}

/-- The rest of the block is skipped. -/
def ExecutionStatus.restarts (self : ExecutionStatus T E) : Bool :=
  match self with
  | .skipRest _ => true
  | _ => false

end Results

/-! ### The loop over the block -/

section Loop

variable {m : MVHashMap K WriteOp} {programs : TxnIndex → Program K (ExecutionStatus (TransactionOutput K WriteOp) E)}
  {status : TxnIndex → ExecutionStatus (TransactionOutput K WriteOp) E} {output : TransactionOutput K WriteOp}
  {outputs : List (TransactionOutput K WriteOp)} {writeSet writeSet' : WriteSet K}
  {writeSets writeSets' : List (WriteSet K)} {loop : BlockLoop K}

/-- The entries of the key below the index can be made, and lead to this. -/
def LeadsTo (bcs : Bcs) (m : MVHashMap K WriteOp) (storage : K → Option (List UInt8)) (key : K) (n : TxnIndex)
    (entry : Option (List UInt8)) : Prop :=
  replay bcs (m.entriesBelow key n) (storage key) = .ok entry

/-- The write set has the writes of the output, and what the entries up to its deltas lead to. -/
def Materializes (bcs : Bcs) (m : MVHashMap K WriteOp) (storage : K → Option (List UInt8)) (idx : TxnIndex)
    (output : TransactionOutput K WriteOp) (writeSet : WriteSet K) : Prop :=
  ∀ key, match output.updates.lookup key with
    | none => writeSet key = none
    | some (.write data) => writeSet key = some data
    | some (.delta _) =>
        ∃ bytes, writeSet key = some (.modification bytes) ∧ LeadsTo bcs m storage key (idx + 1) (some bytes)

/-- The write sets of the outputs, one by one. -/
structure MaterializeAll (bcs : Bcs) (m : MVHashMap K WriteOp) (storage : K → Option (List UInt8))
    (outputs : List (TransactionOutput K WriteOp)) (writeSets : List (WriteSet K)) : Prop where
  length : writeSets.length = outputs.length
  materializes : ∀ i output writeSet, outputs[i]? = some output → writeSets[i]? = some writeSet →
    Materializes bcs m storage i output writeSet

theorem MaterializeAll.concat (h : MaterializeAll bcs m storage outputs writeSets)
    (hlast : Materializes bcs m storage outputs.length output writeSet) :
    MaterializeAll bcs m storage (outputs ++ [output]) (writeSets ++ [writeSet]) := by
  refine ⟨by simp [h.length], ?_⟩
  intro i output' writeSet' houtput hwriteSet
  rcases Nat.lt_or_ge i outputs.length with hlt | hge
  · rw [List.getElem?_append_left hlt] at houtput
    rw [List.getElem?_append_left (h.length ▸ hlt)] at hwriteSet
    exact h.materializes i output' writeSet' houtput hwriteSet
  · rw [List.getElem?_append_right hge] at houtput
    rw [List.getElem?_append_right (h.length ▸ hge), h.length] at hwriteSet
    cases hi : i - outputs.length with
    | succ k =>
        rw [hi] at houtput
        cases houtput
    | zero =>
        rw [hi] at houtput hwriteSet
        obtain rfl := Option.some.inj houtput
        obtain rfl := Option.some.inj hwriteSet
        obtain rfl : i = outputs.length := Nat.le_antisymm (Nat.sub_eq_zero_iff_le.mp hi) hge
        exact hlast

/-- The statuses of the first transactions. -/
def firstStatuses (status : TxnIndex → ExecutionStatus (TransactionOutput K WriteOp) E) (n : ℕ) :
    List (ExecutionStatus (TransactionOutput K WriteOp) E) :=
  (List.range n).map status

omit [DecidableEq K] in
theorem firstStatuses_succ (n : ℕ) : firstStatuses status (n + 1) = firstStatuses status n ++ [status n] := by
  rw [firstStatuses, List.range_succ, List.map_append]
  rfl

/-- The loop after the first transactions, when the outputs so far are these. -/
structure Follows (bcs : Bcs) (m : MVHashMap K WriteOp) (storage : K → Option (List UInt8))
    (status : TxnIndex → ExecutionStatus (TransactionOutput K WriteOp) E) (n : ℕ)
    (outputs : List (TransactionOutput K WriteOp)) (loop : BlockLoop K) : Prop where
  restart : loop.shouldRestart = (firstStatuses status n).any ExecutionStatus.restarts
  cache : loop.shouldRestart = false → ∀ key, LeadsTo bcs m storage key n (loop.dataCache key)
  result : ∃ writeSets, loop.result = writeSets ++ List.replicate (n - outputs.length) (fun _ => none) ∧
    MaterializeAll bcs m storage outputs writeSets

/-- A delta of an output cannot be made to what the entries below it lead to. -/
def Unmaterialized (bcs : Bcs) (m : MVHashMap K WriteOp) (storage : K → Option (List UInt8))
    (outputs : List (TransactionOutput K WriteOp)) : Prop :=
  ∃ i output key op, outputs[i]? = some output ∧ output.updates.lookup key = some (.delta op) ∧
    ∀ entry, ¬LeadsTo bcs m storage key (i + 1) entry

theorem Unmaterialized.append (h : Unmaterialized bcs m storage outputs) (later : List (TransactionOutput K WriteOp)) :
    Unmaterialized bcs m storage (outputs ++ later) := by
  obtain ⟨i, output, key, op, houtput, hop, hnot⟩ := h
  refine ⟨i, output, key, op, ?_, hop, hnot⟩
  rw [List.getElem?_append_left (List.getElem?_eq_some_iff.mp houtput).1]
  exact houtput

/-- The round of an output. -/
theorem Follows.next {n : ℕ} {restarts : Bool} (h : Follows bcs m storage status n outputs loop)
    (hrunning : loop.shouldRestart = false) (hlength : outputs.length = n)
    (hholds : Holds m n (status n)) (hupdate : ∀ key, (status n).update? key = output.updates.lookup key)
    (hrestarts : (status n).restarts = restarts)
    (happlies : Applies bcs loop.dataCache output writeSet) :
    Follows bcs m storage status (n + 1) (outputs ++ [output])
      ⟨pushWriteSet loop.dataCache writeSet, loop.result ++ [writeSet], restarts⟩ := by
  have hleads : ∀ key, LeadsTo bcs m storage key (n + 1) (pushWriteSet loop.dataCache writeSet key) := by
    intro key
    rw [LeadsTo, replay_succ hholds, h.cache hrunning key, ok_bind, hupdate]
    exact happlies.push key
  refine ⟨?_, fun _ => hleads, ?_⟩
  · rw [firstStatuses_succ, List.any_append, ← h.restart, hrunning]
    simp [hrestarts]
  · obtain ⟨writeSets, hresult, hall⟩ := h.result
    refine ⟨writeSets ++ [writeSet], ?_, hall.concat ?_⟩
    · rw [List.length_append, hlength, List.length_singleton, Nat.sub_self, List.replicate_zero, List.append_nil, hresult,
        hlength, Nat.sub_self, List.replicate_zero, List.append_nil]
    · intro key
      have hkey := happlies key
      cases hlookup : output.updates.lookup key with
      | none =>
          rw [hlookup] at hkey
          exact hkey
      | some update =>
          rw [hlookup] at hkey
          cases update with
          | write data => exact hkey
          | delta op =>
              obtain ⟨bytes, hbytes, -⟩ := hkey
              refine ⟨bytes, hbytes, ?_⟩
              have hlast := hleads key
              rw [pushWriteSet, hbytes] at hlast
              rw [hlength]
              exact hlast

/-- What comes of an output: the loop follows, or panics at a delta. -/
def FollowsOrPanics (bcs : Bcs) (m : MVHashMap K WriteOp) (storage : K → Option (List UInt8))
    (status : TxnIndex → ExecutionStatus (TransactionOutput K WriteOp) E) (n : ℕ)
    (outputs : List (TransactionOutput K WriteOp)) (result : VmResult (Except E (BlockLoop K))) : Prop :=
  (∃ loop, result = .ok (.ok loop) ∧ Follows bcs m storage status n outputs loop) ∨
    result = .error .panic ∧ Unmaterialized bcs m storage outputs

/-- The round of a transaction that returns an output, with its deltas or a panic. -/
theorem Follows.apply {n : ℕ} (h : Follows bcs m storage status n outputs loop)
    (hrunning : loop.shouldRestart = false) (hlength : outputs.length = n) (hholds : Holds m n (status n))
    (output : TransactionOutput K WriteOp) (restarts : Bool)
    (hupdate : ∀ key, (status n).update? key = output.updates.lookup key)
    (hrestarts : (status n).restarts = restarts) :
    FollowsOrPanics bcs m storage status (n + 1) (outputs ++ [output]) (do
      let writeSet ← output.intoTransactionOutput bcs loop.dataCache
      return .ok ⟨pushWriteSet loop.dataCache writeSet, loop.result ++ [writeSet], restarts⟩) := by
  cases hinto : output.intoTransactionOutput bcs loop.dataCache with
  | ok writeSet =>
      exact Or.inl ⟨_, rfl, h.next hrunning hlength hholds hupdate hrestarts (intoTransactionOutput_ok hinto)⟩
  | error err =>
      obtain ⟨rfl, key, op, hop, hnot⟩ := intoTransactionOutput_error hinto
      refine Or.inr ⟨rfl, n, output, key, op, ?_, hop, ?_⟩
      · rw [← hlength, List.getElem?_concat_length]
      · intro entry hleads
        rw [LeadsTo, replay_succ hholds, h.cache hrunning key, ok_bind, hupdate, hop] at hleads
        exact hnot entry hleads

/-- The transaction sees the state that the transactions before it lead to. -/
theorem Follows.eval {n : ℕ} (h : Follows bcs m storage status n outputs loop) (hrunning : loop.shouldRestart = false)
    (hlimit : ∀ key, limit key < 2 ^ 128)
    (hcaptures : ∃ reads, Captures bcs storage (programs n) reads (status n) ∧
      ∀ r ∈ reads, m.read bcs r.1 n = .ok r.2)
    (hholds : ∀ i < n, Holds m i (status i)) (hvalid : ∀ i < n, ValidUpdates limit (status i)) :
    (programs n).eval loop.dataCache = status n := by
  obtain ⟨reads, hreads, hread⟩ := hcaptures
  apply hreads.eval
  intro r hr
  obtain ⟨outcome, houtcome, hobserve, -⟩ := read_of_replay m r.1 n (hlimit r.1) (allDone_entriesBelow hholds)
    (validDeltas_entriesBelow hholds hvalid) (h.cache hrunning r.1)
  obtain rfl := Except.ok.inj (houtcome.symm.trans (hread r hr))
  exact hobserve

end Loop

end MoveTutorial.Executor
