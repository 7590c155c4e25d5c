import MoveTutorial.AggregatorTransactions

/-! Squashing change sets. The changes of two sessions that run one after the other, a transaction and its
epilogue, are combined key by key into one change set: writes replace writes, deltas are applied to
writes or merged with deltas. The combined changes lead where the two lead one after the other. -/

namespace MoveTutorial.Executor

open Results

/-! ### Changes of aggregators -/

/-- `AggregatorChangeSet::squash` for one id. -/
def squashChange (selfChange otherChange : Option AggregatorChange) : VmResult (Option AggregatorChange) :=
  match selfChange, otherChange with
  | _, none => .ok selfChange
  | none, some change => .ok (some change)
  | some (.write _), some (.write data) => .ok (some (.write data))
  | some (.merge _), some (.write data) => .ok (some (.write data))
  | some (.write _), some .delete => .ok (some .delete)
  | some (.merge _), some .delete => .ok (some .delete)
  | some (.write data), some (.merge delta) => do
      let newData ← delta.applyTo data
      return some (.write newData)
  | some (.merge delta1), some (.merge delta2) => do
      let merged ← delta2.mergeOnto delta1
      return some (.merge merged)
  -- resource cannot be accessed after deletion
  | some .delete, some _ => .error .panic

/-- The value a change leads to. -/
def changeValue (change : Option AggregatorChange) (base : Option ℕ) : VmResult (Option ℕ) :=
  match change, base with
  | none, _ => .ok base
  | some (.write value), _ => .ok (some value)
  | some (.merge _), none => .error (.vm .storageError none none)
  | some (.merge delta), some b => do
      let result ← delta.applyTo b
      return some result
  | some .delete, _ => .ok none

/-- The deltas of a change record walks within the limit of the aggregator. -/
def AggregatorChange.Valid (limit : ℕ) : AggregatorChange → Prop
  | .merge delta => delta.Valid ∧ delta.limit = limit
  | _ => True

section Changes

variable {bcs : Bcs} {change other squashed : Option AggregatorChange} {base middle result : Option ℕ} {limit : ℕ}

/-- The value is the one that is materialized. -/
theorem materialize_eq (hsmall : ∀ b, base = some b → b < 2 ^ 128) :
    materialize bcs change base = (changeValue change base).map (Option.map bcs.toBytes) := by
  cases change with
  | none => rfl
  | some change =>
      cases change with
      | write value => rfl
      | delete => rfl
      | merge delta =>
          cases hb : base with
          | none => rfl
          | some b =>
              simp only [materialize, AggregatorChange.writeOp, DeltaOp.tryIntoWriteOp, Aggregator.stored,
                Option.map_some, Aggregator.deserialize_toBytes (hsmall b hb), ok_bind, changeValue]
              cases delta.applyTo b <;> rfl

/-- Merged deltas keep the limit, so that squashing goes on with further sessions. -/
theorem squashChange_valid (hself : ∀ c, change = some c → c.Valid limit)
    (hother : ∀ c, other = some c → c.Valid limit) (h : squashChange change other = .ok squashed) :
    ∀ c, squashed = some c → c.Valid limit := by
  cases other with
  | none =>
      have heq : change = squashed := by cases change <;> exact Except.ok.inj h
      rwa [← heq]
  | some other =>
      cases change with
      | none =>
          have heq : some other = squashed := by cases other <;> exact Except.ok.inj h
          rwa [← heq]
      | some change =>
          cases change with
          | delete => cases h
          | write data =>
              cases other with
              | write data' => obtain rfl := Except.ok.inj h; exact hother
              | delete => obtain rfl := Except.ok.inj h; exact hother
              | merge delta =>
                  obtain ⟨newData, -, hnew⟩ := bind_eq_ok.mp h
                  obtain rfl := pure_eq_ok.mp hnew
                  intro c hc
                  obtain rfl := Option.some.inj hc
                  trivial
          | merge delta1 =>
              cases other with
              | write data' => obtain rfl := Except.ok.inj h; exact hother
              | delete => obtain rfl := Except.ok.inj h; exact hother
              | merge delta2 =>
                  obtain ⟨merged, hmerge, hnew⟩ := bind_eq_ok.mp h
                  obtain rfl := pure_eq_ok.mp hnew
                  intro c hc
                  obtain rfl := Option.some.inj hc
                  obtain ⟨hmerged, hlimit⟩ := DeltaOp.mergeOnto_valid (hother _ rfl).1 (hself _ rfl).1 hmerge
                  exact ⟨hmerged, hlimit.trans (hother _ rfl).2⟩

/-- Where the two changes can be made one after the other, and the first is no deletion that the second changes
again, the squashed change exists and leads to the same value. -/
theorem squashChange_value (hself : ∀ c, change = some c → c.Valid limit)
    (hother : ∀ c, other = some c → c.Valid limit) (halive : change = some .delete → other = none)
    (hfirst : changeValue change base = .ok middle) (hsecond : changeValue other middle = .ok result) :
    ∃ squashed, squashChange change other = .ok squashed ∧ changeValue squashed base = .ok result := by
  cases other with
  | none =>
      obtain rfl := Except.ok.inj hsecond
      exact ⟨change, by cases change <;> rfl, hfirst⟩
  | some other =>
      cases change with
      | none =>
          obtain rfl := Except.ok.inj hfirst
          exact ⟨some other, by cases other <;> rfl, hsecond⟩
      | some change =>
          cases change with
          | delete => cases halive rfl
          | write data =>
              obtain rfl := Except.ok.inj hfirst
              cases other with
              | write data' => exact ⟨_, rfl, hsecond⟩
              | delete => exact ⟨_, rfl, hsecond⟩
              | merge delta =>
                  obtain ⟨newData, happly, hresult⟩ := bind_eq_ok.mp hsecond
                  obtain rfl := pure_eq_ok.mp hresult
                  exact ⟨some (.write newData), by rw [squashChange, happly, ok_bind]; rfl, rfl⟩
          | merge delta1 =>
              cases other with
              | write data' => exact ⟨_, rfl, hsecond⟩
              | delete => exact ⟨_, rfl, hsecond⟩
              | merge delta2 =>
                  cases base with
                  | none => cases hfirst
                  | some b =>
                      obtain ⟨hvalid1, hlimit1⟩ := hself _ rfl
                      obtain ⟨hvalid2, hlimit2⟩ := hother _ rfl
                      obtain ⟨value, happly1, hmiddle⟩ := bind_eq_ok.mp hfirst
                      obtain rfl := pure_eq_ok.mp hmiddle
                      obtain ⟨last, happly2, hresult⟩ := bind_eq_ok.mp hsecond
                      obtain rfl := pure_eq_ok.mp hresult
                      have hagree := DeltaOp.mergeOnto_applyTo delta2 delta1 b hvalid2 hvalid1 (by omega) last
                      have hboth : (delta1.applyTo b >>= fun value => delta2.applyTo value) = .ok last := by
                        rw [happly1, ok_bind, happly2]
                      obtain ⟨merged, hmerge, happly⟩ := bind_eq_ok.mp (hagree.mpr hboth)
                      refine ⟨some (.merge merged), by rw [squashChange, hmerge, ok_bind]; rfl, ?_⟩
                      rw [changeValue, happly, ok_bind]
                      rfl

/-- **Squashing the changes of a transaction.** Where the two changes can be made one after the other, they are
squashed unless the first deletes the aggregator and the second changes it again. The squashed change then
leads to the same value and the same bytes, and its delta again records a walk within the limit. -/
theorem squashChange_of_sequential (hself : ∀ c, change = some c → c.Valid limit)
    (hother : ∀ c, other = some c → c.Valid limit) (hsmall : ∀ b, base = some b → b < 2 ^ 128)
    (hfirst : changeValue change base = .ok middle) (hsecond : changeValue other middle = .ok result) :
    ((∃ squashed, squashChange change other = .ok squashed) ↔ (change = some .delete → other = none)) ∧
      ∀ squashed, squashChange change other = .ok squashed →
        changeValue squashed base = .ok result ∧
          materialize bcs squashed base = .ok (result.map bcs.toBytes) ∧ ∀ c, squashed = some c → c.Valid limit := by
  have halive : ∀ squashed, squashChange change other = .ok squashed → change = some .delete → other = none := by
    rintro squashed hsquash rfl
    cases other with
    | none => rfl
    | some other => cases hsquash
  constructor
  · constructor
    · rintro ⟨squashed, hsquash⟩
      exact halive squashed hsquash
    · intro hdeleted
      obtain ⟨squashed, hsquash, -⟩ := squashChange_value hself hother hdeleted hfirst hsecond
      exact ⟨squashed, hsquash⟩
  · intro squashed hsquash
    obtain ⟨squashed', hsquash', hvalue⟩ :=
      squashChange_value hself hother (halive squashed hsquash) hfirst hsecond
    obtain rfl := Except.ok.inj (hsquash'.symm.trans hsquash)
    refine ⟨hvalue, ?_, squashChange_valid hself hother hsquash⟩
    rw [materialize_eq hsmall, hvalue]
    rfl

/-- A delta that is merged with a later one. -/
theorem squashChange_of_sequential_small :
    ∃ squashed, squashChange (some (.merge ⟨5, 0, 10, .plus 2⟩)) (some (.merge ⟨0, 3, 10, .minus 3⟩)) = .ok squashed ∧
      changeValue squashed (some 4) = .ok (some 3) ∧
      materialize .u128 squashed (some 4) = .ok (some (Bcs.u128.toBytes 3)) := by
  have hself : ∀ c, some (AggregatorChange.merge ⟨5, 0, 10, .plus 2⟩) = some c → c.Valid 10 := by
    simp [AggregatorChange.Valid, DeltaOp.Valid, DeltaUpdate.net]
  have hother : ∀ c, some (AggregatorChange.merge ⟨0, 3, 10, .minus 3⟩) = some c → c.Valid 10 := by
    simp [AggregatorChange.Valid, DeltaOp.Valid, DeltaUpdate.net]
  have hsmall : ∀ b, some 4 = some b → b < 2 ^ 128 := by simp
  obtain ⟨hexists, hsquashed⟩ := squashChange_of_sequential hself hother hsmall rfl rfl
  have hdeleted : some (AggregatorChange.merge ⟨5, 0, 10, .plus 2⟩) = some .delete →
      some (AggregatorChange.merge ⟨0, 3, 10, .minus 3⟩) = none := by simp
  obtain ⟨squashed, hsquash⟩ := hexists.mpr hdeleted
  obtain ⟨hvalue, hbytes, -⟩ := hsquashed squashed hsquash
  exact ⟨squashed, hsquash, hvalue, hbytes⟩

end Changes

/-! ### Change sets of writes and deltas -/

/-- The operation under one key of a `ChangeSetExt`: a write of the change set, or a delta. -/
structure KeyChange where
  writeOp : Option WriteOp
  deltaOp : Option DeltaOp
  /-- a write replaces the delta of its key -/
  exclusive : writeOp = none ∨ deltaOp = none

namespace KeyChange

/-- How squashing fails: `bail!`, bytes that are no `u128`, or a delta that cannot be applied or merged. -/
inductive SquashError where
  | cannotBeSquashed
  | alreadyDeleted
  | malformed
  | vm (failure : Failure)
  deriving DecidableEq, Repr

def liftVm {α : Type} : VmResult α → Except SquashError α
  | .ok a => .ok a
  | .error failure => .error (.vm failure)

/-- The delta applied to a write of the same change set. -/
def applyToData (bcs : Bcs) (op : DeltaOp) (data : List UInt8) : Except SquashError (List UInt8) :=
  match bcs.fromBytes data with
  | none => .error .malformed
  | some val => do
      let result ← liftVm (op.applyTo val)
      return bcs.toBytes result

/-- `squash_delta_change_set` for one key. -/
def squashDelta (bcs : Bcs) (self : KeyChange) (other : Option DeltaOp) : Except SquashError KeyChange :=
  match other with
  | none => .ok self
  | some op =>
      match hwrite : self.writeOp with
      | some (.creation data) => do
          let data' ← applyToData bcs op data
          return ⟨some (.creation data'), self.deltaOp, Or.inr (self.exclusive.resolve_left (by simp [hwrite]))⟩
      | some (.modification data) => do
          let data' ← applyToData bcs op data
          return ⟨some (.modification data'), self.deltaOp, Or.inr (self.exclusive.resolve_left (by simp [hwrite]))⟩
      | some .deletion => .error .alreadyDeleted
      | none =>
          match self.deltaOp with
          | some entry => do
              let merged ← liftVm (op.mergeOnto entry)
              return ⟨none, some merged, Or.inl rfl⟩
          | none => .ok ⟨none, some op, Or.inl rfl⟩

/-- `squash_change_set` for one key. -/
def squashWrite (self : KeyChange) (other : Option WriteOp) : Except SquashError KeyChange :=
  match other, hwrite : self.writeOp with
  | none, _ => .ok self
  | some op, none => .ok ⟨some op, none, Or.inr rfl⟩
  | some (.creation _), some (.modification _) => .error .cannotBeSquashed
  | some (.creation _), some (.creation _) => .error .cannotBeSquashed
  | some .deletion, some .deletion => .error .cannotBeSquashed
  | some (.modification _), some .deletion => .error .cannotBeSquashed
  | some (.modification data), some (.modification _) =>
      .ok ⟨some (.modification data), self.deltaOp, Or.inr (self.exclusive.resolve_left (by simp [hwrite]))⟩
  | some (.modification data), some (.creation _) =>
      .ok ⟨some (.creation data), self.deltaOp, Or.inr (self.exclusive.resolve_left (by simp [hwrite]))⟩
  | some .deletion, some (.modification _) =>
      .ok ⟨some .deletion, self.deltaOp, Or.inr (self.exclusive.resolve_left (by simp [hwrite]))⟩
  | some (.creation data), some .deletion =>
      .ok ⟨some (.modification data), self.deltaOp, Or.inr (self.exclusive.resolve_left (by simp [hwrite]))⟩
  | some .deletion, some (.creation _) => .ok ⟨none, self.deltaOp, Or.inl rfl⟩

/-- `ChangeSetExt::squash` for one key. -/
def squash (bcs : Bcs) (self other : KeyChange) : Except SquashError KeyChange := do
  let squashed ← self.squashWrite other.writeOp
  squashed.squashDelta bcs other.deltaOp

/-- What the state holds under the key after the change. -/
def apply (bcs : Bcs) (self : KeyChange) (entry : Option (List UInt8)) :
    Except SquashError (Option (List UInt8)) :=
  match self.writeOp, self.deltaOp, entry with
  | some (.creation data), _, _ => .ok (some data)
  | some (.modification data), _, _ => .ok (some data)
  | some .deletion, _, _ => .ok none
  | none, none, _ => .ok entry
  | none, some op, some data => do
      let data' ← applyToData bcs op data
      return some data'
  | none, some _, none => .error (.vm (.vm .storageError none none))

/-- Only what is absent is created. -/
def CreatesAbsent (self : KeyChange) (entry : Option (List UInt8)) : Prop :=
  ∀ data, self.writeOp = some (.creation data) → entry = none

/-- Only what is present is modified or deleted. -/
def ChangesPresent (self : KeyChange) (entry : Option (List UInt8)) : Prop :=
  (∀ data, self.writeOp = some (.modification data) → entry ≠ none) ∧ (self.writeOp = some .deletion → entry ≠ none)

/-- The deltas of a key record walks within its limit. -/
def Valid (limit : ℕ) (self : KeyChange) : Prop :=
  ∀ op, self.deltaOp = some op → op.Valid ∧ op.limit = limit

section Squash

variable {bcs : Bcs} {self other : KeyChange} {entry middle result : Option (List UInt8)} {limit : ℕ}

theorem liftVm_eq_ok {α : Type} {x : VmResult α} {a : α} : liftVm x = .ok a ↔ x = .ok a := by
  cases x with
  | ok b => simp [liftVm]
  | error e => simp [liftVm]

/-- Two deltas applied to the bytes of a value are their merge applied to them. -/
theorem applyToData_merge {op1 op2 : DeltaOp} {data data1 data2 : List UInt8} (hlimit : limit < 2 ^ 128)
    (hvalid1 : op1.Valid ∧ op1.limit = limit) (hvalid2 : op2.Valid ∧ op2.limit = limit)
    (hfirst : applyToData bcs op1 data = .ok data1) (hsecond : applyToData bcs op2 data1 = .ok data2) :
    ∃ merged, op2.mergeOnto op1 = .ok merged ∧ applyToData bcs merged data = .ok data2 := by
  unfold applyToData at hfirst
  cases hval : bcs.fromBytes data with
  | none => rw [hval] at hfirst; cases hfirst
  | some val =>
      rw [hval] at hfirst
      obtain ⟨mid, hmid, hbytes⟩ := bind_eq_ok.mp hfirst
      obtain rfl := pure_eq_ok.mp hbytes
      have hmid := liftVm_eq_ok.mp hmid
      obtain ⟨steps, hrec⟩ := DeltaOp.valid_iff_records.mp hvalid1.1
      obtain ⟨hwithin, hend⟩ := (DeltaOp.applyTo_eq_ok hrec).mp hmid
      have hfinish := hwithin.finish
      have hsmall : mid < 2 ^ 128 := by
        rw [← hend, hvalid1.2] at hfinish
        omega
      simp only [applyToData, bcs.fromBytes_toBytes mid hsmall] at hsecond
      obtain ⟨last, hlast, hbytes⟩ := bind_eq_ok.mp hsecond
      obtain rfl := pure_eq_ok.mp hbytes
      have hlast := liftVm_eq_ok.mp hlast
      have hboth : (op1.applyTo val >>= fun value => op2.applyTo value) = .ok last := by
        rw [hmid, ok_bind, hlast]
      have hagree := DeltaOp.mergeOnto_applyTo op2 op1 val hvalid2.1 hvalid1.1 (hvalid1.2.trans hvalid2.2.symm) last
      obtain ⟨merged, hmerge, happly⟩ := bind_eq_ok.mp (hagree.mpr hboth)
      refine ⟨merged, hmerge, ?_⟩
      simp only [applyToData, hval, happly]
      rfl

/-- A delta after a write or another delta. -/
theorem squashDelta_apply {op : DeltaOp} (hlimit : limit < 2 ^ 128) (hself : self.Valid limit)
    (hop : op.Valid ∧ op.limit = limit) (hfirst : self.apply bcs entry = .ok middle)
    (hsecond : KeyChange.apply bcs ⟨none, some op, Or.inl rfl⟩ middle = .ok result) :
    ∃ c, self.squashDelta bcs (some op) = .ok c ∧ c.apply bcs entry = .ok result := by
  obtain ⟨writeOp, deltaOp, exclusive⟩ := self
  cases writeOp with
  | some write =>
      cases write with
      | creation data =>
          obtain rfl := Except.ok.inj hfirst
          obtain ⟨data', hdata, hresult⟩ := bind_eq_ok.mp hsecond
          obtain rfl := pure_eq_ok.mp hresult
          exact ⟨_, bind_eq_ok.mpr ⟨data', hdata, rfl⟩, rfl⟩
      | modification data =>
          obtain rfl := Except.ok.inj hfirst
          obtain ⟨data', hdata, hresult⟩ := bind_eq_ok.mp hsecond
          obtain rfl := pure_eq_ok.mp hresult
          exact ⟨_, bind_eq_ok.mpr ⟨data', hdata, rfl⟩, rfl⟩
      | deletion =>
          obtain rfl := Except.ok.inj hfirst
          cases hsecond
  | none =>
      cases deltaOp with
      | none =>
          obtain rfl := Except.ok.inj hfirst
          exact ⟨_, rfl, hsecond⟩
      | some earlier =>
          cases entry with
          | none => cases hfirst
          | some data =>
              obtain ⟨data1, hdata1, hmiddle⟩ := bind_eq_ok.mp hfirst
              obtain rfl := pure_eq_ok.mp hmiddle
              obtain ⟨data2, hdata2, hresult⟩ := bind_eq_ok.mp hsecond
              obtain rfl := pure_eq_ok.mp hresult
              obtain ⟨merged, hmerge, happly⟩ := applyToData_merge hlimit (hself _ rfl) hop hdata1 hdata2
              exact ⟨⟨none, some merged, Or.inl rfl⟩, bind_eq_ok.mpr ⟨merged, liftVm_eq_ok.mpr hmerge, rfl⟩,
                bind_eq_ok.mpr ⟨data2, happly, rfl⟩⟩

/-- A write after a write or a delta. -/
theorem squashWrite_apply {op : WriteOp} (hself : self.CreatesAbsent entry)
    (hother : CreatesAbsent ⟨some op, none, Or.inr rfl⟩ middle) (hother' : ChangesPresent ⟨some op, none, Or.inr rfl⟩ middle)
    (hfirst : self.apply bcs entry = .ok middle)
    (hsecond : KeyChange.apply bcs ⟨some op, none, Or.inr rfl⟩ middle = .ok result) :
    ∃ c, self.squashWrite (some op) = .ok c ∧ c.apply bcs entry = .ok result := by
  obtain ⟨writeOp, deltaOp, exclusive⟩ := self
  cases writeOp with
  | none =>
      refine ⟨_, rfl, ?_⟩
      cases op <;> exact hsecond
  | some write =>
      cases write with
      | creation data =>
          obtain rfl := Except.ok.inj hfirst
          cases op with
          | creation data' => cases hother data' rfl
          | modification data' => exact ⟨_, rfl, hsecond⟩
          | deletion =>
              obtain rfl := Except.ok.inj hsecond
              obtain rfl := hself data rfl
              have hdelta : deltaOp = none := exclusive.resolve_left nofun
              subst hdelta
              exact ⟨_, rfl, rfl⟩
      | modification data =>
          obtain rfl := Except.ok.inj hfirst
          cases op with
          | creation data' => cases hother data' rfl
          | modification data' => exact ⟨_, rfl, hsecond⟩
          | deletion => exact ⟨_, rfl, hsecond⟩
      | deletion =>
          obtain rfl := Except.ok.inj hfirst
          cases op with
          | creation data' => exact ⟨_, rfl, hsecond⟩
          | modification data' => exact absurd rfl (hother'.1 data' rfl)
          | deletion => exact absurd rfl (hother'.2 rfl)

/-- **Squashing the changes of a key.** Where two changes that create only what is absent can be made one after
the other, the second of them changing only what is present, they can be squashed, and the squashed change
leads to the same entry. -/
theorem squash_apply (hlimit : limit < 2 ^ 128) (hself : self.Valid limit) (hother : other.Valid limit)
    (hcreates : self.CreatesAbsent entry) (hcreates' : other.CreatesAbsent middle)
    (hpresent : other.ChangesPresent middle) (hfirst : self.apply bcs entry = .ok middle)
    (hsecond : other.apply bcs middle = .ok result) :
    ∃ c, self.squash bcs other = .ok c ∧ c.apply bcs entry = .ok result := by
  obtain ⟨writeOp, deltaOp, exclusive⟩ := other
  cases writeOp with
  | some op =>
      have hdelta : deltaOp = none := exclusive.resolve_left nofun
      subst hdelta
      obtain ⟨c, hc, happly⟩ := squashWrite_apply hcreates hcreates' hpresent hfirst hsecond
      refine ⟨c, ?_, happly⟩
      rw [squash, hc, ok_bind]
      rfl
  | none =>
      cases deltaOp with
      | none =>
          obtain rfl := Except.ok.inj hsecond
          exact ⟨self, rfl, hfirst⟩
      | some op =>
          obtain ⟨c, hc, happly⟩ := squashDelta_apply hlimit hself (hother op rfl) hfirst hsecond
          refine ⟨c, ?_, happly⟩
          rw [squash]
          exact hc

/-- A value that is created by a transaction and raised by its epilogue. -/
theorem squash_apply_small :
    ∃ c, KeyChange.squash .u128 ⟨some (.creation (Bcs.u128.toBytes 4)), none, Or.inr rfl⟩
        ⟨none, some ⟨3, 0, 10, .plus 3⟩, Or.inl rfl⟩ = .ok c ∧
      c.apply .u128 none = .ok (some (Bcs.u128.toBytes 7)) := by
  have hself : Valid 10 ⟨some (.creation (Bcs.u128.toBytes 4)), none, Or.inr rfl⟩ := fun op hop => by
    cases hop
  have hother : Valid 10 ⟨none, some ⟨3, 0, 10, .plus 3⟩, Or.inl rfl⟩ := fun op hop => by
    obtain rfl := Option.some.inj hop
    exact ⟨by simp [DeltaOp.Valid, DeltaUpdate.net], rfl⟩
  have hcreates : CreatesAbsent ⟨none, some ⟨3, 0, 10, .plus 3⟩, Or.inl rfl⟩ (some (Bcs.u128.toBytes 4)) :=
    fun data hdata => by cases hdata
  have hpresent : ChangesPresent ⟨none, some ⟨3, 0, 10, .plus 3⟩, Or.inl rfl⟩ (some (Bcs.u128.toBytes 4)) :=
    ⟨fun data hdata => (by cases hdata), fun hdeletion => (by cases hdeletion)⟩
  exact squash_apply (by norm_num) hself hother (fun _ _ => rfl) hcreates hpresent rfl rfl

end Squash

end KeyChange

end MoveTutorial.Executor
