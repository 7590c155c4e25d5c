import MoveTutorial.MultiVersion

/-! Reads of the multi-version map are sequential. Whatever the entries below a transaction lead to when they
are made one after the other, from the lowest to the highest, is what the transaction sees when it
goes through them from the highest to the lowest and stops early. -/

namespace MoveTutorial.Executor

open Results TransactionWrite

variable {K V : Type} [TransactionWrite V] {bcs : Bcs}

/-- A delta made to what the state holds. -/
def applyDelta (bcs : Bcs) (delta : DeltaOp) (entry : Option (List UInt8)) : VmResult (Option (List UInt8)) :=
  match entry with
  | none => .error (.vm .storageError none none)
  | some bytes => do
      let base ← deserialize bcs bytes
      let result ← delta.applyTo base
      return some (serialize bcs result)

/-- One entry made to what the state holds. -/
def EntryCell.make (bcs : Bcs) (cell : EntryCell V) (entry : Option (List UInt8)) : VmResult (Option (List UInt8)) :=
  match cell with
  | .write _ data => .ok (extractRawBytes data)
  | .delta op => applyDelta bcs op entry

/-- Entries made one after the other. -/
def replay (bcs : Bcs) : List (TxnIndex × Entry V) → Option (List UInt8) → VmResult (Option (List UInt8))
  | [], entry => .ok entry
  | (_, e) :: entries, entry => do
      let next ← e.cell.make bcs entry
      replay bcs entries next

/-- What the transaction sees, given what the storage holds: `read` of the view and `get_state_value` of the
view of the VM. A transaction that finds a dependency waits and reads again. -/
def observe (bcs : Bcs) (storage : Option (List UInt8)) : ReadOutcome V → VmResult (Option (List UInt8))
  | .ok (.version _ data) => .ok (extractRawBytes data)
  | .ok (.resolved value) => .ok (some (serialize bcs value))
  | .error .notFound => .ok storage
  | .error (.unresolved delta) => applyDelta bcs delta storage
  -- assumed to be speculative, the VM continues with zero
  | .error .deltaApplicationFailure => .ok (some (serialize bcs 0))
  | .error (.dependency _) => .error .panic

/-- The deltas record walks within the limit of the key. -/
def ValidDeltas (limit : ℕ) (entries : List (TxnIndex × Entry V)) : Prop :=
  ∀ idx flag delta, (idx, ⟨flag, .delta delta⟩) ∈ entries → delta.Valid ∧ delta.limit = limit

def AllDone (entries : List (TxnIndex × Entry V)) : Prop := ∀ e ∈ entries, e.2.flag = .done

theorem replay_append {entries later : List (TxnIndex × Entry V)} {entry : Option (List UInt8)} :
    replay bcs (entries ++ later) entry = replay bcs entries entry >>= replay bcs later := by
  induction entries generalizing entry with
  | nil => rfl
  | cons e entries ih =>
      simp only [List.cons_append, replay]
      cases e.2.cell.make bcs entry with
      | error _ => rfl
      | ok next => exact ih

theorem replay_concat {entries : List (TxnIndex × Entry V)} {e : TxnIndex × Entry V} {entry : Option (List UInt8)} :
    replay bcs (entries ++ [e]) entry = replay bcs entries entry >>= e.2.cell.make bcs := by
  rw [replay_append]
  congr 1
  funext next
  simp only [replay]
  cases e.2.cell.make bcs next <;> rfl

variable {limit : ℕ} {delta accumulator : DeltaOp} {entry middle result storage : Option (List UInt8)}

theorem applyDelta_eq_ok :
    applyDelta bcs delta entry = .ok result ↔
      ∃ bytes base value, entry = some bytes ∧ bcs.fromBytes bytes = some base ∧ delta.applyTo base = .ok value ∧
        result = some (bcs.toBytes value) := by
  unfold applyDelta
  cases entry with
  | none => simp
  | some bytes =>
      simp only [bind_eq_ok, pure_eq_ok, deserialize, serialize, Option.some.injEq, exists_and_left, exists_eq_left']
      cases bcs.fromBytes bytes with
      | none => simp
      | some base => simp [eq_comm]

/-- Two deltas made one after the other are their merge. -/
theorem applyDelta_merge (hlimit : limit < 2 ^ 128) (hdelta : delta.Valid ∧ delta.limit = limit)
    (hacc : accumulator.Valid ∧ accumulator.limit = limit) (hfirst : applyDelta bcs delta entry = .ok middle)
    (hsecond : applyDelta bcs accumulator middle = .ok result) :
    ∃ merged, accumulator.mergeOnto delta = .ok merged ∧ (merged.Valid ∧ merged.limit = limit) ∧
      applyDelta bcs merged entry = .ok result := by
  obtain ⟨bytes, base, value, rfl, hbase, happly, rfl⟩ := applyDelta_eq_ok.mp hfirst
  obtain ⟨bytes', base', last, hbytes, hbase', happly', rfl⟩ := applyDelta_eq_ok.mp hsecond
  obtain rfl := Option.some.inj hbytes
  obtain ⟨steps, hrec⟩ := DeltaOp.valid_iff_records.mp hdelta.1
  obtain ⟨hwithin, hend⟩ := (DeltaOp.applyTo_eq_ok hrec).mp happly
  have hfinish := hwithin.finish
  have hsmall : value < 2 ^ 128 := by
    rw [← hend, hdelta.2] at hfinish
    omega
  rw [bcs.fromBytes_toBytes value hsmall] at hbase'
  obtain rfl := Option.some.inj hbase'
  have hboth : (delta.applyTo base >>= fun value => accumulator.applyTo value) = .ok last := by
    rw [happly, ok_bind, happly']
  have hagree := DeltaOp.mergeOnto_applyTo accumulator delta base hacc.1 hdelta.1 (hdelta.2.trans hacc.2.symm) last
  obtain ⟨merged, hmerge, hmerged⟩ := bind_eq_ok.mp (hagree.mpr hboth)
  obtain ⟨hvalid, hlim⟩ := DeltaOp.mergeOnto_valid hacc.1 hdelta.1 hmerge
  exact ⟨merged, hmerge, ⟨hvalid, hlim.trans hacc.2⟩,
    applyDelta_eq_ok.mpr ⟨bytes, base, last, rfl, hbase, hmerged, rfl⟩⟩

theorem deserialize_eq_ok {bytes : List UInt8} {value : ℕ} :
    deserialize bcs bytes = .ok value ↔ bcs.fromBytes bytes = some value := by
  unfold deserialize
  cases bcs.fromBytes bytes with
  | none => simp
  | some value' => simp

theorem fromWrite_eq_ok {data : V} {bytes : List UInt8} {value : ℕ} (hbytes : extractRawBytes data = some bytes)
    (hvalue : bcs.fromBytes bytes = some value) : fromWrite bcs data = .ok (some value) := by
  rw [fromWrite, hbytes]
  simp only [deserialize, hvalue, ok_bind]
  rfl

/-- The loop with an accumulated delta. -/
theorem readLoop_some {entries : List (TxnIndex × Entry V)} (hlimit : limit < 2 ^ 128) (hdone : AllDone entries)
    (hvalid : ValidDeltas limit entries) (hacc : accumulator.Valid ∧ accumulator.limit = limit)
    (hreplay : replay bcs entries.reverse storage = .ok middle) (happly : applyDelta bcs accumulator middle = .ok result) :
    ∃ outcome, MVHashMap.readLoop bcs entries (some accumulator) = .ok outcome ∧
      observe bcs storage outcome = .ok result ∧ outcome ≠ .error .deltaApplicationFailure := by
  induction entries generalizing accumulator middle result with
  | nil =>
      obtain rfl := Except.ok.inj hreplay
      exact ⟨_, rfl, happly, nofun⟩
  | cons e entries ih =>
      obtain ⟨idx, flag, cell⟩ := e
      obtain rfl : flag = .done := hdone _ List.mem_cons_self
      rw [List.reverse_cons, replay_concat] at hreplay
      obtain ⟨earlier, hearlier, hmake⟩ := bind_eq_ok.mp hreplay
      cases cell with
      | write incarnation data =>
          obtain rfl := Except.ok.inj hmake
          obtain ⟨bytes, base, value, hbytes, hbase, hvalue, rfl⟩ := applyDelta_eq_ok.mp happly
          refine ⟨.ok (.resolved value), ?_, rfl, nofun⟩
          simp only [MVHashMap.readLoop, fromWrite_eq_ok hbytes hbase, ok_bind, hvalue]
          rfl
      | delta delta =>
          have hdelta := hvalid idx .done delta List.mem_cons_self
          obtain ⟨merged, hmerge, hmerged, happly'⟩ := applyDelta_merge hlimit hdelta hacc hmake happly
          obtain ⟨outcome, hloop, hobserve⟩ :=
            ih (fun e he => hdone e (List.mem_cons_of_mem _ he))
              (fun idx flag delta he => hvalid idx flag delta (List.mem_cons_of_mem _ he)) hmerged hearlier happly'
          refine ⟨outcome, ?_, hobserve⟩
          simp only [MVHashMap.readLoop, hmerge, hloop]

/-- The loop from its start. -/
theorem readLoop_none {entries : List (TxnIndex × Entry V)} (hlimit : limit < 2 ^ 128) (hdone : AllDone entries)
    (hvalid : ValidDeltas limit entries) (hreplay : replay bcs entries.reverse storage = .ok result) :
    ∃ outcome, MVHashMap.readLoop bcs entries none = .ok outcome ∧ observe bcs storage outcome = .ok result ∧
      outcome ≠ .error .deltaApplicationFailure := by
  cases entries with
  | nil => exact ⟨_, rfl, hreplay, nofun⟩
  | cons e entries =>
      obtain ⟨idx, flag, cell⟩ := e
      obtain rfl : flag = .done := hdone _ List.mem_cons_self
      rw [List.reverse_cons, replay_concat] at hreplay
      obtain ⟨earlier, hearlier, hmake⟩ := bind_eq_ok.mp hreplay
      cases cell with
      | write incarnation data => exact ⟨_, rfl, hmake, nofun⟩
      | delta delta =>
          exact readLoop_some hlimit (fun e he => hdone e (List.mem_cons_of_mem _ he))
            (fun idx flag delta he => hvalid idx flag delta (List.mem_cons_of_mem _ he))
            (hvalid idx .done delta List.mem_cons_self) hearlier hmake

/-- The entries of a key below an index, the lowest first. -/
def MVHashMap.entriesBelow (self : MVHashMap K V) (key : K) (n : TxnIndex) : List (TxnIndex × Entry V) :=
  match self.data key with
  | some tree => tree.ascending n
  | none => []

/-- **Reads are sequential.** If the entries of a key below a transaction are complete and can be made one after
the other to what the storage holds, the transaction sees what they lead to. -/
theorem read_of_replay (self : MVHashMap K V) (key : K) (txnIdx : TxnIndex) (hlimit : limit < 2 ^ 128)
    (hdone : AllDone (self.entriesBelow key txnIdx)) (hvalid : ValidDeltas limit (self.entriesBelow key txnIdx))
    (hreplay : replay bcs (self.entriesBelow key txnIdx) storage = .ok result) :
    ∃ outcome, self.read bcs key txnIdx = .ok outcome ∧ observe bcs storage outcome = .ok result ∧
      outcome ≠ .error .deltaApplicationFailure := by
  unfold MVHashMap.entriesBelow at hdone hvalid hreplay
  unfold MVHashMap.read
  cases hdata : self.data key with
  | none =>
      rw [hdata] at hreplay
      exact ⟨_, rfl, hreplay, nofun⟩
  | some tree =>
      rw [hdata] at hdone hvalid hreplay
      refine readLoop_none hlimit (fun e he => hdone e (List.mem_reverse.mpr he))
        (fun idx flag delta he => hvalid idx flag delta (List.mem_reverse.mpr he)) ?_
      exact hreplay

/-! ### The materialized deltas -/

/-- The latest value of the resolver is the value of what the state holds. -/
def IsLatest (bcs : Bcs) (latestValue : Option ℕ) (entry : Option (List UInt8)) : Prop :=
  match entry with
  | none => latestValue = none
  | some bytes => ∃ value, bcs.fromBytes bytes = some value ∧ latestValue = some value

theorem isLatest_fromWrite {data : V} {latestValue : Option ℕ} (h : fromWrite bcs data = .ok latestValue) :
    IsLatest bcs latestValue (extractRawBytes data) := by
  unfold fromWrite at h
  unfold IsLatest
  cases hbytes : extractRawBytes data with
  | none =>
      rw [hbytes] at h
      exact (Except.ok.inj h).symm
  | some bytes =>
      rw [hbytes] at h
      obtain ⟨value, hvalue, hlatest⟩ := bind_eq_ok.mp h
      exact ⟨value, deserialize_eq_ok.mp hvalue, (pure_eq_ok.mp hlatest).symm⟩

/-- A delta leaves the latest value in the state. -/
theorem isLatest_applyDelta {value aggregatorValue : ℕ} (hlimit : limit < 2 ^ 128)
    (hdelta : delta.Valid ∧ delta.limit = limit) (hlatest : IsLatest bcs (some value) entry)
    (happly : delta.applyTo value = .ok aggregatorValue) :
    applyDelta bcs delta entry = .ok (some (bcs.toBytes aggregatorValue)) ∧
      IsLatest bcs (some aggregatorValue) (some (bcs.toBytes aggregatorValue)) := by
  unfold IsLatest at hlatest
  cases entry with
  | none => cases hlatest
  | some bytes =>
      obtain ⟨value', hvalue', hsome⟩ := hlatest
      obtain rfl := Option.some.inj hsome
      refine ⟨applyDelta_eq_ok.mpr ⟨bytes, value, aggregatorValue, rfl, hvalue', happly, rfl⟩, ?_⟩
      obtain ⟨steps, hrec⟩ := DeltaOp.valid_iff_records.mp hdelta.1
      obtain ⟨hwithin, hend⟩ := (DeltaOp.applyTo_eq_ok hrec).mp happly
      have hfinish := hwithin.finish
      rw [← hend, hdelta.2] at hfinish
      exact ⟨aggregatorValue, bcs.fromBytes_toBytes _ (by omega), rfl⟩

/-- The latest value at the beginning. -/
theorem isLatest_storage {storage : Option (List UInt8)} {latestValue : Option ℕ}
    (h : storageValue bcs (.ok storage) = .ok latestValue) : IsLatest bcs latestValue storage := by
  unfold storageValue at h
  unfold IsLatest
  cases storage with
  | none => exact (Except.ok.inj h).symm
  | some bytes =>
      obtain ⟨value, hvalue, hsome⟩ := bind_eq_ok.mp h
      exact ⟨value, deserialize_eq_ok.mp hvalue, (pure_eq_ok.mp hsome).symm⟩

theorem resolveLoop_append {entries later : List (TxnIndex × Entry V)} {latestValue : Option ℕ} :
    resolveLoop bcs latestValue (entries ++ later) = (do
      let (writes, last) ← resolveLoop bcs latestValue entries
      let (writes', last') ← resolveLoop bcs last later
      return (writes ++ writes', last')) := by
  induction entries generalizing latestValue with
  | nil =>
      cases hlater : resolveLoop bcs latestValue later <;> simp [resolveLoop, hlater]
  | cons e entries ih =>
      obtain ⟨idx, flag, cell⟩ := e
      rw [List.cons_append]
      cases cell with
      | write incarnation data =>
          simp only [resolveLoop]
          cases fromWrite bcs data with
          | error err => rfl
          | ok latest => exact ih
      | delta delta =>
          cases latestValue with
          | none => rfl
          | some value =>
              simp only [resolveLoop]
              cases delta.applyTo value with
              | error err => rfl
              | ok aggregatorValue =>
                  dsimp only
                  rw [ih]
                  cases resolveLoop bcs (some aggregatorValue) entries with
                  | error err => rfl
                  | ok result =>
                      obtain ⟨writes, last⟩ := result
                      simp only [ok_bind, pure_bind]
                      cases resolveLoop bcs last later <;> rfl

/-! ### The entries below an index -/

omit [TransactionWrite V] in
theorem Tree.ascending_succ (tree : Tree V) (n : TxnIndex) :
    tree.ascending (n + 1) = tree.ascending n ++ ((tree n).map fun entry => (n, entry)).toList := by
  rw [Tree.ascending, Tree.descending]
  cases tree n with
  | none => exact (List.append_nil _).symm
  | some entry => exact List.reverse_cons

omit [TransactionWrite V] in
theorem Tree.ascending_prefix (tree : Tree V) {i n : TxnIndex} (h : i ≤ n) :
    ∃ after, tree.ascending n = tree.ascending i ++ after := by
  induction h with
  | refl => exact ⟨[], (List.append_nil _).symm⟩
  | step _ ih =>
      obtain ⟨after, hafter⟩ := ih
      exact ⟨_, by rw [Tree.ascending_succ, hafter, List.append_assoc]⟩

omit [TransactionWrite V] in
/-- The closest entry below an index. -/
theorem Tree.descending_eq_cons (tree : Tree V) {i n : TxnIndex} {e : Entry V} {rest : List (TxnIndex × Entry V)}
    (h : tree.descending n = (i, e) :: rest) : i < n ∧ tree i = some e ∧ rest = tree.descending i := by
  induction n with
  | zero => cases h
  | succ n ih =>
      rw [Tree.descending] at h
      cases htree : tree n with
      | none =>
          rw [htree] at h
          obtain ⟨hlt, hrest⟩ := ih h
          exact ⟨hlt.trans (Nat.lt_succ_self n), hrest⟩
      | some e' =>
          rw [htree] at h
          obtain ⟨hpair, rfl⟩ := List.cons.inj h
          obtain ⟨rfl, rfl⟩ := Prod.mk.inj hpair
          exact ⟨Nat.lt_succ_self _, htree, rfl⟩

/-- The write is that of a delta below the index, materialized to what the entries up to it lead to. -/
def IsMaterialized (bcs : Bcs) (tree : Tree V) (storage : Option (List UInt8)) (n : TxnIndex)
    (w : TxnIndex × WriteOp) : Prop :=
  w.1 < n ∧ (∃ flag delta, tree w.1 = some ⟨flag, .delta delta⟩) ∧
    ∃ bytes, w.2 = .modification bytes ∧ replay bcs (tree.ascending (w.1 + 1)) storage = .ok (some bytes)

theorem IsMaterialized.succ {tree : Tree V} {n : TxnIndex} {w : TxnIndex × WriteOp}
    (hn : ∀ flag delta, tree n ≠ some ⟨flag, .delta delta⟩) :
    IsMaterialized bcs tree storage (n + 1) w ↔ IsMaterialized bcs tree storage n w := by
  apply and_congr_left
  rintro ⟨⟨flag, delta, htree⟩, -⟩
  have hne : w.1 ≠ n := by
    intro heq
    rw [heq] at htree
    exact hn flag delta htree
  exact ⟨fun hlt => Nat.lt_of_le_of_ne (Nat.le_of_lt_succ hlt) hne, fun hlt => hlt.trans (Nat.lt_succ_self n)⟩

theorem IsMaterialized.succ_delta {tree : Tree V} {n : TxnIndex} {w : TxnIndex × WriteOp} {flag : Flag}
    {delta : DeltaOp} {bytes : List UInt8} (htree : tree n = some ⟨flag, .delta delta⟩)
    (hmade : replay bcs (tree.ascending (n + 1)) storage = .ok (some bytes)) :
    IsMaterialized bcs tree storage (n + 1) w ↔ IsMaterialized bcs tree storage n w ∨ w = (n, .modification bytes) := by
  constructor
  · rintro ⟨hlt, hrest⟩
    rcases Nat.lt_or_eq_of_le (Nat.le_of_lt_succ hlt) with hlt' | heq
    · exact Or.inl ⟨hlt', hrest⟩
    · obtain ⟨-, bytes', hbytes, hreplay⟩ := hrest
      rw [heq, hmade] at hreplay
      obtain rfl := Option.some.inj (Except.ok.inj hreplay)
      exact Or.inr (Prod.ext heq hbytes)
  · rintro (⟨hlt, hrest⟩ | rfl)
    · exact ⟨hlt.trans (Nat.lt_succ_self n), hrest⟩
    · exact ⟨Nat.lt_succ_self n, ⟨flag, delta, htree⟩, bytes, rfl, hmade⟩

/-- The entries can be made one after the other, and the writes are those of the deltas. -/
theorem resolveLoop_ascending {tree : Tree V} {n : TxnIndex} {latestValue last : Option ℕ}
    {writes : List (TxnIndex × WriteOp)} (hlimit : limit < 2 ^ 128) (hvalid : ValidDeltas limit (tree.ascending n))
    (hlatest : IsLatest bcs latestValue storage)
    (h : resolveLoop bcs latestValue (tree.ascending n) = .ok (writes, last)) :
    (∃ final, replay bcs (tree.ascending n) storage = .ok final ∧ IsLatest bcs last final) ∧
      ∀ w, w ∈ writes ↔ IsMaterialized bcs tree storage n w := by
  induction n generalizing writes last with
  | zero =>
      obtain ⟨rfl, rfl⟩ := Prod.mk.inj (Except.ok.inj h)
      refine ⟨⟨storage, rfl, hlatest⟩, fun w => iff_of_false List.not_mem_nil fun hw => ?_⟩
      cases hw.1
  | succ n ih =>
      have hreplay := fun e (he : tree n = some e) =>
        show replay bcs (tree.ascending (n + 1)) storage = _ by
          rw [tree.ascending_succ, he, Option.map_some, Option.toList_some, replay_concat]
      rw [tree.ascending_succ] at h hvalid
      have hvalid' : ValidDeltas limit (tree.ascending n) :=
        fun idx flag delta he => hvalid idx flag delta (List.mem_append_left _ he)
      cases htree : tree n with
      | none =>
          rw [htree, Option.map_none, Option.toList_none, List.append_nil] at h
          have hascending : tree.ascending (n + 1) = tree.ascending n := by
            rw [tree.ascending_succ, htree, Option.map_none, Option.toList_none, List.append_nil]
          obtain ⟨hfinal, hwrites⟩ := ih hvalid' h
          rw [hascending]
          refine ⟨hfinal, fun w => (hwrites w).trans (IsMaterialized.succ fun flag delta => ?_).symm⟩
          rw [htree]
          exact nofun
      | some e =>
          rw [htree, Option.map_some, Option.toList_some, resolveLoop_append] at h
          obtain ⟨⟨writes', last'⟩, hbelow, hrest⟩ := bind_eq_ok.mp h
          obtain ⟨⟨writes'', last''⟩, hlast, hpair⟩ := bind_eq_ok.mp hrest
          obtain ⟨rfl, rfl⟩ := Prod.mk.inj (pure_eq_ok.mp hpair)
          obtain ⟨⟨final, hfinal, hlatest'⟩, hwrites⟩ := ih hvalid' hbelow
          rw [hreplay e htree, hfinal, ok_bind]
          obtain ⟨flag, cell⟩ := e
          cases cell with
          | write incarnation data =>
              obtain ⟨latest, hfrom, hnil⟩ := bind_eq_ok.mp hlast
              obtain ⟨rfl, rfl⟩ := Prod.mk.inj (Except.ok.inj hnil)
              refine ⟨⟨_, rfl, isLatest_fromWrite hfrom⟩, fun w => ?_⟩
              rw [List.append_nil]
              refine (hwrites w).trans (IsMaterialized.succ fun flag delta => ?_).symm
              rw [htree]
              exact nofun
          | delta delta =>
              cases last' with
              | none => cases hlast
              | some value =>
                  simp only [resolveLoop] at hlast
                  cases happly : delta.applyTo value with
                  | error _ => rw [happly] at hlast; cases hlast
                  | ok aggregatorValue =>
                      rw [happly] at hlast
                      obtain ⟨rfl, rfl⟩ := Prod.mk.inj (Except.ok.inj hlast)
                      have hdelta := hvalid n flag delta (by rw [htree]; exact List.mem_append_right _ List.mem_cons_self)
                      obtain ⟨hmake, hnext⟩ := isLatest_applyDelta hlimit hdelta hlatest' happly
                      have hmade : replay bcs (tree.ascending (n + 1)) storage = .ok (some (bcs.toBytes aggregatorValue)) := by
                        rw [hreplay _ htree, hfinal, ok_bind]
                        exact hmake
                      refine ⟨⟨_, hmake, hnext⟩, fun w => ?_⟩
                      rw [List.mem_append, hwrites, List.mem_singleton]
                      exact (IsMaterialized.succ_delta htree hmade).symm

/-- The resolver of one key. -/
theorem resolveKey_ok {tree : Tree V} {n : TxnIndex} {writes : List (TxnIndex × WriteOp)} (hlimit : limit < 2 ^ 128)
    (hvalid : ValidDeltas limit (tree.ascending n)) (h : resolveKey bcs tree (.ok storage) n = .ok writes) :
    (∃ final, replay bcs (tree.ascending n) storage = .ok final) ∧
      ∀ w, w ∈ writes ↔ IsMaterialized bcs tree storage n w := by
  obtain ⟨latestValue, hstorage, hrest⟩ := bind_eq_ok.mp h
  obtain ⟨⟨writes', last⟩, hloop, hwrites⟩ := bind_eq_ok.mp hrest
  obtain rfl := pure_eq_ok.mp hwrites
  obtain ⟨⟨final, hfinal, -⟩, hmaterialized⟩ := resolveLoop_ascending hlimit hvalid (isLatest_storage hstorage) hloop
  exact ⟨⟨final, hfinal⟩, hmaterialized⟩

/-- **Materialized deltas are what is read.** If the deltas of a key can be materialized, every transaction of the
block reads the key without a failed delta, and a transaction whose closest entry is a delta sees what that
delta is materialized to. -/
theorem resolve_read (self : MVHashMap K V) (key : K) (tree : Tree V) (storage : Option (List UInt8)) (blockSize : ℕ)
    (writes : List (TxnIndex × WriteOp)) (htree : self.data key = some tree) (hlimit : limit < 2 ^ 128)
    (hdone : AllDone (tree.ascending blockSize)) (hvalid : ValidDeltas limit (tree.ascending blockSize))
    (h : resolveKey bcs tree (.ok storage) blockSize = .ok writes) (txnIdx : TxnIndex) (hidx : txnIdx ≤ blockSize) :
    ∃ outcome entry, self.read bcs key txnIdx = .ok outcome ∧ outcome ≠ .error .deltaApplicationFailure ∧
      observe bcs storage outcome = .ok entry ∧
      ∀ idx flag delta rest, tree.descending txnIdx = (idx, ⟨flag, .delta delta⟩) :: rest →
        ∃ bytes, entry = some bytes ∧ (idx, WriteOp.modification bytes) ∈ writes := by
  obtain ⟨⟨final, hfinal⟩, hwrites⟩ := resolveKey_ok hlimit hvalid h
  obtain ⟨after, hafter⟩ := tree.ascending_prefix hidx
  rw [hafter, replay_append] at hfinal
  obtain ⟨entry, hentry, -⟩ := bind_eq_ok.mp hfinal
  have hmem : ∀ e ∈ tree.descending txnIdx, e ∈ tree.ascending blockSize := fun e he => by
    rw [hafter]
    exact List.mem_append_left _ (List.mem_reverse.mpr he)
  obtain ⟨outcome, houtcome, hobserve, hfailure⟩ := readLoop_none hlimit (fun e he => hdone e (hmem e he))
    (fun idx flag delta he => hvalid idx flag delta (hmem _ he)) hentry
  refine ⟨outcome, entry, ?_, hfailure, hobserve, ?_⟩
  · unfold MVHashMap.read
    rw [htree]
    exact houtcome
  intro idx flag delta rest hclosest
  obtain ⟨hlt, htree, hrest⟩ := tree.descending_eq_cons hclosest
  have hascending : tree.ascending txnIdx = tree.ascending (idx + 1) := by
    rw [Tree.ascending, hclosest, tree.ascending_succ, htree, List.reverse_cons, hrest]
    rfl
  rw [hascending] at hentry
  have hdelta := hvalid idx flag delta (hmem _ (by rw [hclosest]; exact List.mem_cons_self))
  rw [tree.ascending_succ, htree, Option.map_some, Option.toList_some, replay_concat] at hentry
  obtain ⟨middle, hmiddle, hmake⟩ := bind_eq_ok.mp hentry
  obtain ⟨bytes, base, value, -, -, -, rfl⟩ := applyDelta_eq_ok.mp hmake
  refine ⟨_, rfl, (hwrites _).mpr ⟨hlt.trans_le hidx, ⟨flag, delta, htree⟩, _, rfl, ?_⟩⟩
  rw [tree.ascending_succ, htree, Option.map_some, Option.toList_some, replay_concat, hmiddle]
  exact hmake

/-- A write of five by the first transaction, raised by the second. -/
def fiveAndThree : Tree WriteOp
  | 0 => some ⟨.done, .write 0 (.modification (Bcs.u128.toBytes 5))⟩
  | 1 => some ⟨.done, .delta ⟨3, 0, 10, .plus 3⟩⟩
  | _ => none

/-- The third transaction reads what the delta of the second is materialized to. -/
theorem resolve_read_small :
    ∃ outcome entry, MVHashMap.read ⟨fun _ : Unit => some fiveAndThree⟩ .u128 () 2 = .ok outcome ∧
      outcome ≠ .error .deltaApplicationFailure ∧ observe .u128 none outcome = .ok entry ∧
      ∀ idx flag delta rest, fiveAndThree.descending 2 = (idx, ⟨flag, .delta delta⟩) :: rest →
        ∃ bytes, entry = some bytes ∧
          (idx, WriteOp.modification bytes) ∈ [((1 : TxnIndex), WriteOp.modification (Bcs.u128.toBytes 8))] := by
  have hdone : AllDone (fiveAndThree.ascending 2) := by
    intro e he
    fin_cases he <;> rfl
  have hvalid : ValidDeltas 10 (fiveAndThree.ascending 2) := by
    intro idx flag delta he
    simp only [Tree.ascending, Tree.descending, fiveAndThree, List.reverse_cons, List.reverse_nil, List.nil_append,
      List.cons_append, List.mem_cons, Prod.mk.injEq, Entry.mk.injEq, reduceCtorEq, and_false, false_or,
      EntryCell.delta.injEq, List.not_mem_nil, or_false] at he
    obtain ⟨-, -, rfl⟩ := he
    exact ⟨by simp [DeltaOp.Valid, DeltaUpdate.net], rfl⟩
  exact resolve_read _ () fiveAndThree none 2 _ rfl (by norm_num) hdone hvalid rfl 2 le_rfl

end MoveTutorial.Executor
