import MoveTutorial.AggregatorModel

/-! Deferred checks are sound. A transaction that adds to values it has not read, with every comparison
against the stored values put off, returns and stores exactly what it would with the values at hand:
if one of the comparisons would have failed, reading the value or materializing its delta fails. -/

namespace MoveTutorial.Executor

open Results BoundedWalk

/-! ### One aggregator -/

namespace Aggregator

/-- What the aggregator adds to the stored value, or its value once it is known. -/
def net (self : Aggregator) : ℤ :=
  match self.state with
  | .negativeDelta => -(self.value : ℤ)
  | _ => self.value

/-- The aggregator does not know its value, and the steps are what the transaction added so far. -/
structure Follows (aggregator : Aggregator) (steps : List ℤ) : Prop where
  unknown : aggregator.state ≠ .data
  net : aggregator.net = steps.sum
  extremes : ∀ history, aggregator.history = some history →
    (history.maxPositive : ℤ) = top steps ∧ -(history.minNegative : ℤ) = bottom steps

variable {self next : Aggregator} {steps : List ℤ} {value : ℕ}

theorem net_positive (h : self.state = .positiveDelta) : self.net = self.value := by
  rw [net, h]

theorem net_negative (h : self.state = .negativeDelta) : self.net = -(self.value : ℤ) := by
  rw [net, h]

@[simp] theorem record_limit (self : Aggregator) : self.record.limit = self.limit := by
  unfold record
  split <;> rfl

@[simp] theorem record_state (self : Aggregator) : self.record.state = self.state := by
  unfold record
  split
  · next h => exact h ▸ rfl
  · next h => exact h ▸ rfl
  · rfl

@[simp] theorem record_value (self : Aggregator) : self.record.value = self.value := by
  unfold record
  split <;> rfl

theorem record_net (self : Aggregator) : self.record.net = self.net := by
  rw [net, net, record_state, record_value]

/-- Recording extends the walk by a step. -/
theorem record_follows {step : ℤ} (hunknown : self.state ≠ .data) (hnet : self.net = steps.sum + step)
    (hextremes : ∀ history, self.history = some history →
      (history.maxPositive : ℤ) = top steps ∧ -(history.minNegative : ℤ) = bottom steps) :
    self.record.Follows (steps ++ [step]) := by
  have htop := top_nonneg steps
  have hbottom := bottom_nonpos steps
  refine ⟨by rwa [record_state], by rw [record_net, hnet, List.sum_append, List.sum_singleton], ?_⟩
  intro history hhistory
  rw [top_concat, bottom_concat, ← hnet]
  unfold record at hhistory
  split at hhistory
  · next hstate =>
      obtain ⟨earlier, hearlier, rfl⟩ := Option.map_eq_some_iff.mp hhistory
      obtain ⟨hmax, hmin⟩ := hextremes earlier hearlier
      rw [net, hstate, ← hmax, ← hmin]
      simp only [History.recordPositive]
      omega
  · next hstate =>
      obtain ⟨earlier, hearlier, rfl⟩ := Option.map_eq_some_iff.mp hhistory
      obtain ⟨hmax, hmin⟩ := hextremes earlier hearlier
      rw [net, hstate, ← hmax, ← hmin]
      simp only [History.recordNegative]
      omega
  · next hstate => exact absurd hstate hunknown

theorem add_follows (hself : self.Follows steps) (h : self.add value = .ok next) :
    next.Follows (steps ++ [(value : ℤ)]) ∧ next.limit = self.limit := by
  have hnet := hself.net
  unfold add at h
  split at h
  · next hstate => exact absurd hstate hself.unknown
  · next hstate =>
      obtain ⟨sum, hsum, hnext⟩ := bind_eq_ok.mp h
      obtain rfl := pure_eq_ok.mp hnext
      obtain ⟨-, rfl⟩ := addition_eq_ok.mp hsum
      rw [net_positive hstate] at hnet
      refine ⟨record_follows hself.unknown ?_ hself.extremes, record_limit _⟩
      simp only [net, hstate]
      omega
  · next hstate =>
      rw [net_negative hstate] at hnet
      split at h
      · obtain ⟨difference, hdifference, hnext⟩ := bind_eq_ok.mp h
        obtain rfl := pure_eq_ok.mp hnext
        obtain ⟨hle, rfl⟩ := subtraction_eq_ok.mp hdifference
        refine ⟨record_follows nofun ?_ hself.extremes, record_limit _⟩
        simp only [net]
        omega
      · obtain ⟨difference, hdifference, hnext⟩ := bind_eq_ok.mp h
        obtain rfl := pure_eq_ok.mp hnext
        obtain ⟨hle, rfl⟩ := subtraction_eq_ok.mp hdifference
        refine ⟨record_follows hself.unknown ?_ hself.extremes, record_limit _⟩
        simp only [net, hstate]
        omega

theorem sub_follows (hself : self.Follows steps) (h : self.sub value = .ok next) :
    next.Follows (steps ++ [-(value : ℤ)]) ∧ next.limit = self.limit := by
  have hnet := hself.net
  unfold sub at h
  split at h
  · next hstate => exact absurd hstate hself.unknown
  · next hstate =>
      rw [net_positive hstate] at hnet
      split at h
      · obtain ⟨difference, hdifference, hnext⟩ := bind_eq_ok.mp h
        obtain rfl := pure_eq_ok.mp hnext
        obtain ⟨hle, rfl⟩ := subtraction_eq_ok.mp hdifference
        refine ⟨record_follows hself.unknown ?_ hself.extremes, record_limit _⟩
        simp only [net, hstate]
        omega
      · obtain ⟨_, -, hrest⟩ := bind_eq_ok.mp h
        obtain ⟨difference, hdifference, hnext⟩ := bind_eq_ok.mp hrest
        obtain rfl := pure_eq_ok.mp hnext
        obtain ⟨hle, rfl⟩ := subtraction_eq_ok.mp hdifference
        refine ⟨record_follows nofun ?_ hself.extremes, record_limit _⟩
        simp only [net]
        omega
  · next hstate =>
      obtain ⟨sum, hsum, hnext⟩ := bind_eq_ok.mp h
      obtain rfl := pure_eq_ok.mp hnext
      obtain ⟨-, rfl⟩ := addition_eq_ok.mp hsum
      rw [net_negative hstate] at hnet
      refine ⟨record_follows hself.unknown ?_ hself.extremes, record_limit _⟩
      simp only [net, hstate]
      omega

/-- An addition that no stored value could take is the only one refused. -/
theorem add_follows_ok {base : ℕ} (hself : self.Follows steps)
    (h : Within 0 (self.limit : ℤ) base (steps ++ [(value : ℤ)])) : ∃ next, self.add value = .ok next := by
  have hfinish := h.finish
  rw [List.sum_append, List.sum_singleton, ← hself.net] at hfinish
  unfold add
  split
  · next hstate => exact absurd hstate hself.unknown
  · next hstate =>
      rw [net, hstate] at hfinish
      dsimp only at hfinish
      exact ⟨_, by rw [addition_ok (by omega), ok_bind]; rfl⟩
  · split
    · next hle => exact ⟨_, by rw [subtraction_ok hle, ok_bind]; rfl⟩
    · next hle => exact ⟨_, by rw [subtraction_ok (by omega), ok_bind]; rfl⟩

theorem sub_follows_ok {base : ℕ} (hself : self.Follows steps)
    (h : Within 0 (self.limit : ℤ) base (steps ++ [-(value : ℤ)])) : ∃ next, self.sub value = .ok next := by
  have hfinish := h.finish
  have hstart := h.start
  have hmiddle := (within_append.mp h).1.finish
  rw [← hself.net] at hmiddle
  rw [List.sum_append, List.sum_singleton, ← hself.net] at hfinish
  unfold sub
  split
  · next hstate => exact absurd hstate hself.unknown
  · next hstate =>
      rw [net, hstate] at hfinish hmiddle
      dsimp only at hfinish hmiddle
      split
      · next hle => exact ⟨_, by rw [subtraction_ok hle, ok_bind]; rfl⟩
      · next hle => exact ⟨_, by rw [subtraction_ok (by omega), ok_bind, subtraction_ok (by omega), ok_bind]; rfl⟩
  · next hstate =>
      rw [net, hstate] at hfinish
      dsimp only at hfinish
      exact ⟨_, by rw [addition_ok (by omega), ok_bind]; rfl⟩

/-- The delta of the aggregator records its walk. -/
theorem Follows.change (hself : self.Follows steps) :
    ∃ delta : DeltaOp, self.change = .merge delta ∧ delta.limit = self.limit ∧ delta.Records steps := by
  have hnet := hself.net
  unfold Aggregator.change
  split
  · next hstate => exact absurd hstate hself.unknown
  · next hstate =>
      obtain ⟨hmax, hmin⟩ := hself.extremes _ (Option.some_get _).symm
      rw [net_positive hstate] at hnet
      exact ⟨_, rfl, rfl, hnet, hmax, hmin⟩
  · next hstate =>
      obtain ⟨hmax, hmin⟩ := hself.extremes _ (Option.some_get _).symm
      rw [net_negative hstate] at hnet
      exact ⟨_, rfl, rfl, hnet, hmax, hmin⟩

/-- Resolving is applying the delta. -/
theorem Follows.resolve_eq_ok {base result : ℕ} (hself : self.Follows steps) :
    self.resolve base = .ok result ↔ Within 0 (self.limit : ℤ) base steps ∧ (result : ℤ) = base + steps.sum := by
  obtain ⟨delta, hchange, hlimit, hrec⟩ := hself.change
  have hresolve : self.resolve base = delta.applyTo base := by
    unfold Aggregator.change at hchange
    have hsome := hself.unknown
    rw [Ne, ← ne_eq, ← self.tracked, Option.isSome_iff_exists] at hsome
    obtain ⟨history, hhistory⟩ := hsome
    rw [resolve, hhistory]
    split at hchange
    · next hstate => exact absurd hstate hself.unknown
    · next hstate =>
        obtain rfl := AggregatorChange.merge.inj hchange
        simp only [hhistory, Option.get_some, hstate, DeltaOp.applyTo]
    · next hstate =>
        obtain rfl := AggregatorChange.merge.inj hchange
        simp only [hhistory, Option.get_some, hstate, DeltaOp.applyTo]
  rw [hresolve, DeltaOp.applyTo_eq_ok hrec, hlimit]

/-! ### Against a stored value -/

/-- With this stored value the aggregator has the value `x`, and every check made or put off so far
succeeds. -/
def Stands (aggregator : Aggregator) (base : Option ℕ) (x : ℕ) : Prop :=
  (aggregator.state = .data ∧ aggregator.value = x) ∨
    ∃ b steps, base = some b ∧ aggregator.Follows steps ∧ Within 0 (aggregator.limit : ℤ) b steps ∧
      (x : ℤ) = b + steps.sum

/-- A check that was put off fails with this stored value. -/
def Doomed (aggregator : Aggregator) (base : Option ℕ) : Prop :=
  ∃ steps, aggregator.Follows steps ∧ ∀ b : ℕ, base = some b → ¬Within 0 (aggregator.limit : ℤ) b steps

variable {base : Option ℕ} {x : ℕ}

theorem add_known (hstate : self.state = .data) (hvalue : self.value = x) :
    (x + value ≤ self.limit → ∃ next, self.add value = .ok next ∧ next.limit = self.limit ∧
      next.state = .data ∧ next.value = x + value) ∧
    (¬x + value ≤ self.limit → ∀ next, self.add value ≠ .ok next) := by
  unfold add
  split
  · refine ⟨fun hle => ?_, fun hnot next h => ?_⟩
    · rw [addition_ok (by omega), ok_bind]
      exact ⟨_, rfl, rfl, hstate, by dsimp only; omega⟩
    · obtain ⟨sum, hsum, -⟩ := bind_eq_ok.mp h
      have hle := (addition_eq_ok.mp hsum).1
      omega
  · next hother => rw [hstate] at hother; cases hother
  · next hother => rw [hstate] at hother; cases hother

theorem sub_known (hstate : self.state = .data) (hvalue : self.value = x) :
    (value ≤ x → ∃ next, self.sub value = .ok next ∧ next.limit = self.limit ∧
      next.state = .data ∧ next.value = x - value) ∧
    (¬value ≤ x → ∀ next, self.sub value ≠ .ok next) := by
  unfold sub
  split
  · refine ⟨fun hle => ?_, fun hnot next h => ?_⟩
    · rw [subtraction_ok (by omega), ok_bind]
      exact ⟨_, rfl, rfl, hstate, by dsimp only; omega⟩
    · obtain ⟨difference, hdifference, -⟩ := bind_eq_ok.mp h
      have hle := (subtraction_eq_ok.mp hdifference).1
      omega
  · next hother => rw [hstate] at hother; cases hother
  · next hother => rw [hstate] at hother; cases hother

theorem Stands.add (hself : self.Stands base x) (hle : x + value ≤ self.limit) :
    ∃ next, self.add value = .ok next ∧ next.limit = self.limit ∧ next.Stands base (x + value) := by
  rcases hself with ⟨hstate, hvalue⟩ | ⟨b, steps, hbase, hfollows, hwithin, hx⟩
  · obtain ⟨next, hnext, hlimit, hstate', hvalue'⟩ := (add_known hstate hvalue).1 hle
    exact ⟨next, hnext, hlimit, Or.inl ⟨hstate', hvalue'⟩⟩
  · have hlonger : Within 0 (self.limit : ℤ) b (steps ++ [(value : ℤ)]) :=
      (within_concat hwithin).mpr (by omega)
    obtain ⟨next, hnext⟩ := add_follows_ok hfollows hlonger
    obtain ⟨hfollows', hlimit⟩ := add_follows hfollows hnext
    refine ⟨next, hnext, hlimit, Or.inr ⟨b, _, hbase, hfollows', by rwa [hlimit], ?_⟩⟩
    rw [List.sum_append, List.sum_singleton]
    omega

theorem Stands.sub (hself : self.Stands base x) (hx : x ≤ self.limit) (hle : value ≤ x) :
    ∃ next, self.sub value = .ok next ∧ next.limit = self.limit ∧ next.Stands base (x - value) := by
  rcases hself with ⟨hstate, hvalue⟩ | ⟨b, steps, hbase, hfollows, hwithin, hx'⟩
  · obtain ⟨next, hnext, hlimit, hstate', hvalue'⟩ := (sub_known hstate hvalue).1 hle
    exact ⟨next, hnext, hlimit, Or.inl ⟨hstate', hvalue'⟩⟩
  · have hlonger : Within 0 (self.limit : ℤ) b (steps ++ [-(value : ℤ)]) :=
      (within_concat hwithin).mpr (by omega)
    obtain ⟨next, hnext⟩ := sub_follows_ok hfollows hlonger
    obtain ⟨hfollows', hlimit⟩ := sub_follows hfollows hnext
    refine ⟨next, hnext, hlimit, Or.inr ⟨b, _, hbase, hfollows', by rwa [hlimit], ?_⟩⟩
    rw [List.sum_append, List.sum_singleton]
    omega

/-- An addition beyond the limit fails, or leaves a check that will. -/
theorem Stands.add_doomed (hself : self.Stands base x) (hle : ¬x + value ≤ self.limit)
    (h : self.add value = .ok next) : next.Doomed base ∧ next.limit = self.limit := by
  rcases hself with ⟨hstate, hvalue⟩ | ⟨b, steps, hbase, hfollows, hwithin, hx⟩
  · exact absurd h ((add_known hstate hvalue).2 hle next)
  · obtain ⟨hfollows', hlimit⟩ := add_follows hfollows h
    refine ⟨⟨_, hfollows', fun b' hb' hlonger => ?_⟩, hlimit⟩
    obtain rfl : b = b' := Option.some.inj (hbase.symm.trans hb')
    rw [hlimit, within_concat hwithin] at hlonger
    omega

theorem Stands.sub_doomed (hself : self.Stands base x) (hle : ¬value ≤ x) (h : self.sub value = .ok next) :
    next.Doomed base ∧ next.limit = self.limit := by
  rcases hself with ⟨hstate, hvalue⟩ | ⟨b, steps, hbase, hfollows, hwithin, hx⟩
  · exact absurd h ((sub_known hstate hvalue).2 hle next)
  · obtain ⟨hfollows', hlimit⟩ := sub_follows hfollows h
    refine ⟨⟨_, hfollows', fun b' hb' hlonger => ?_⟩, hlimit⟩
    obtain rfl : b = b' := Option.some.inj (hbase.symm.trans hb')
    rw [hlimit, within_concat hwithin] at hlonger
    omega

/-- No later operation repairs a check that will fail. -/
theorem Doomed.add (hself : self.Doomed base) (h : self.add value = .ok next) :
    next.Doomed base ∧ next.limit = self.limit := by
  obtain ⟨steps, hfollows, hnot⟩ := hself
  obtain ⟨hfollows', hlimit⟩ := add_follows hfollows h
  refine ⟨⟨_, hfollows', fun b hb hlonger => hnot b hb ?_⟩, hlimit⟩
  rw [hlimit] at hlonger
  exact (within_append.mp hlonger).1

theorem Doomed.sub (hself : self.Doomed base) (h : self.sub value = .ok next) :
    next.Doomed base ∧ next.limit = self.limit := by
  obtain ⟨steps, hfollows, hnot⟩ := hself
  obtain ⟨hfollows', hlimit⟩ := sub_follows hfollows h
  refine ⟨⟨_, hfollows', fun b hb hlonger => hnot b hb ?_⟩, hlimit⟩
  rw [hlimit] at hlonger
  exact (within_append.mp hlonger).1

section Storage

variable {bcs : Bcs} {out : ℕ} {op : WriteOp}

/-- What the storage holds for a value. -/
def stored (bcs : Bcs) (base : Option ℕ) : Except Unit (Option (List UInt8)) := .ok (base.map bcs.toBytes)

theorem deserialize_toBytes (hx : x < 2 ^ 128) : deserialize bcs (bcs.toBytes x) = .ok x := by
  rw [deserialize, bcs.fromBytes_toBytes x hx]

/-- Reading returns the value the aggregator stands for. -/
theorem Stands.read (bcs : Bcs) (hself : self.Stands base x) (hlimit : self.limit < 2 ^ 128) :
    ∃ next, self.readAndMaterialize bcs (stored bcs base) = .ok (x, next) ∧ next.limit = self.limit ∧
      next.Stands base x := by
  unfold readAndMaterialize
  rcases hself with ⟨hstate, hvalue⟩ | ⟨b, steps, hbase, hfollows, hwithin, hx⟩
  · rw [if_pos hstate, hvalue]
    exact ⟨self, rfl, rfl, Or.inl ⟨hstate, hvalue⟩⟩
  · have hb : b < 2 ^ 128 := by
      have hstart := hwithin.start
      omega
    have hresolve := hfollows.resolve_eq_ok.mpr ⟨hwithin, hx⟩
    rw [if_neg hfollows.unknown, hbase]
    simp only [stored, Option.map_some, deserialize_toBytes hb, ok_bind, hresolve]
    exact ⟨_, rfl, rfl, Or.inl ⟨rfl, rfl⟩⟩

theorem Doomed.read (hself : self.Doomed base) (hbase : ∀ b, base = some b → b < 2 ^ 128) :
    self.readAndMaterialize bcs (stored bcs base) ≠ .ok (out, next) := by
  obtain ⟨steps, hfollows, hnot⟩ := hself
  unfold readAndMaterialize
  rw [if_neg hfollows.unknown]
  cases hb : base with
  | none => exact nofun
  | some b =>
      simp only [stored, Option.map_some, deserialize_toBytes (hbase b hb), ok_bind]
      intro h
      obtain ⟨value, hvalue, -⟩ := bind_eq_ok.mp h
      exact hnot b hb (hfollows.resolve_eq_ok.mp hvalue).1

/-- The change of the aggregator writes the value it stands for. -/
theorem Stands.writeOp (bcs : Bcs) (hself : self.Stands base x) (hlimit : self.limit < 2 ^ 128) :
    self.change.writeOp bcs (stored bcs base) = .ok (.modification (bcs.toBytes x)) := by
  rcases hself with ⟨hstate, hvalue⟩ | ⟨b, steps, hbase, hfollows, hwithin, hx⟩
  · have hchange : self.change = .write self.value := by
      unfold change
      split
      · rfl
      · next hother => rw [hstate] at hother; cases hother
      · next hother => rw [hstate] at hother; cases hother
    rw [hchange, hvalue]
    rfl
  · obtain ⟨delta, hchange, hlim, hrec⟩ := hfollows.change
    have hb : b < 2 ^ 128 := by
      have hstart := hwithin.start
      omega
    have happly : delta.applyTo b = .ok x := (DeltaOp.applyTo_eq_ok hrec).mpr ⟨by rwa [hlim], hx⟩
    rw [hchange, hbase]
    simp only [AggregatorChange.writeOp, DeltaOp.tryIntoWriteOp, stored, Option.map_some, deserialize_toBytes hb,
      ok_bind, happly]
    rfl

theorem Doomed.writeOp (hself : self.Doomed base) (hbase : ∀ b, base = some b → b < 2 ^ 128) :
    self.change.writeOp bcs (stored bcs base) ≠ .ok op := by
  obtain ⟨steps, hfollows, hnot⟩ := hself
  obtain ⟨delta, hchange, hlim, hrec⟩ := hfollows.change
  rw [hchange]
  cases hb : base with
  | none => exact nofun
  | some b =>
      simp only [AggregatorChange.writeOp, DeltaOp.tryIntoWriteOp, stored, Option.map_some,
        deserialize_toBytes (hbase b hb), ok_bind]
      intro h
      obtain ⟨value, hvalue, -⟩ := bind_eq_ok.mp h
      have hwithin := ((DeltaOp.applyTo_eq_ok hrec).mp hvalue).1
      rw [hlim] at hwithin
      exact hnot b hb hwithin

end Storage

end Aggregator

end MoveTutorial.Executor
