import MoveTutorial.AggregatorRefinement

/-! Transactions over many aggregators. Next to the native calls stand the same calls on the values
themselves, where every comparison is made at once. What the calls return and what the changes of the
transaction leave in storage is the same for both. -/

namespace MoveTutorial.Executor

open Results BoundedWalk

/-- The values of the aggregators that exist. -/
abbrev Values := AggregatorID → Option ℕ

def Native.id : Native → AggregatorID
  | .newAggregator id => id
  | .add id _ => id
  | .sub id _ => id
  | .read id => id
  | .destroy id => id

section Immediate

variable (limit : AggregatorID → ℕ)

/-- One native call with the values at hand, `none` if it fails. -/
def immediate (values : Values) : Native → Option (Option ℕ × Values)
  | .newAggregator id => some (none, Function.update values id (some 0))
  | .add id value => do
      let x ← values id
      if x + value ≤ limit id then some (none, Function.update values id (some (x + value))) else none
  | .sub id value => do
      let x ← values id
      if value ≤ x then some (none, Function.update values id (some (x - value))) else none
  | .read id => do
      let x ← values id
      some (some x, values)
  | .destroy id => do
      let _ ← values id
      some (none, Function.update values id none)

/-- The calls of a transaction with the values at hand. -/
def immediates (values : Values) : List Native → Option (List (Option ℕ) × Values)
  | [] => some ([], values)
  | call :: calls => do
      let (out, values') ← immediate limit values call
      let (outs, last) ← immediates values' calls
      some (out :: outs, last)

end Immediate

/-- The key of every new aggregator is one that was not used before. -/
def FreshKeys (used : AggregatorID → Prop) : List Native → Prop
  | [] => True
  | call :: calls =>
      (∀ id, call = .newAggregator id → ¬used id) ∧ FreshKeys (fun id => used id ∨ id = call.id) calls

/-- What is in storage under the id once the change has been materialized. -/
def materialize (bcs : Bcs) (change : Option AggregatorChange) (base : Option ℕ) : VmResult (Option (List UInt8)) :=
  match change with
  | none => .ok (base.map bcs.toBytes)
  | some change => do
      match ← change.writeOp bcs (Aggregator.stored bcs base) with
      | .creation data => return some data
      | .modification data => return some data
      | .deletion => return none

/-! ### One call -/

section Calls

variable {bcs : Bcs} {limit : AggregatorID → ℕ} {base : Values}

/-- The aggregators held stand for the values, and where none is held the value is the stored one. -/
structure Simulates (limit : AggregatorID → ℕ) (base : Values) (data : AggregatorData) (values : Values) : Prop where
  bounded : ∀ id x, values id = some x → x ≤ limit id
  held : ∀ id aggregator, data.aggregators id = some aggregator →
    aggregator.limit = limit id ∧ id ∉ data.destroyedAggregators ∧
      ∃ x, values id = some x ∧ aggregator.Stands (base id) x
  destroyed : ∀ id ∈ data.destroyedAggregators, values id = none
  untouched : ∀ id, data.aggregators id = none → id ∉ data.destroyedAggregators → values id = base id
  created : ∀ id ∈ data.newAggregators, base id = none
  stored : ∀ id ∈ data.destroyedAggregators, base id ≠ none
  new : ∀ id, values id ≠ none → base id = none → id ∈ data.newAggregators

variable {used : AggregatorID → Prop} {data next : AggregatorData} {values values' : Values} {id : AggregatorID}
  {aggregator : Aggregator} {x : ℕ} {call : Native} {out : Option ℕ}

/-- Stored values are integers of 128 bits. -/
theorem stored_lt (hlimit : ∀ id, limit id < 2 ^ 128) (hbase : ∀ id b, base id = some b → b ≤ limit id) :
    ∀ id b, base id = some b → b < 2 ^ 128 := by
  intro id b hb
  calc b ≤ limit id := hbase id b hb
    _ < 2 ^ 128 := hlimit id

variable (limit) in
theorem getAggregator_fresh (h : data.aggregators id = none) :
    (data.getAggregator id (limit id)).Follows [] ∧ (data.getAggregator id (limit id)).limit = limit id := by
  rw [AggregatorData.getAggregator, h]
  refine ⟨⟨nofun, rfl, fun history hhistory => ?_⟩, rfl⟩
  obtain rfl := Option.some.inj hhistory
  exact ⟨rfl, rfl⟩

theorem getAggregator_held (h : data.aggregators id = some aggregator) :
    data.getAggregator id (limit id) = aggregator := by
  rw [AggregatorData.getAggregator, h, Option.getD_some]

/-- The instance of an aggregator that exists stands for its value. -/
theorem Simulates.current (h : Simulates limit base data values) (hx : values id = some x) :
    (data.getAggregator id (limit id)).limit = limit id ∧ id ∉ data.destroyedAggregators ∧
      (data.getAggregator id (limit id)).Stands (base id) x := by
  have halive : id ∉ data.destroyedAggregators := fun hmem => by
    have hnone := h.destroyed id hmem
    rw [hx] at hnone
    cases hnone
  cases haggregator : data.aggregators id with
  | none =>
      obtain ⟨hfollows, hlimit⟩ := getAggregator_fresh limit haggregator
      have hbase : base id = some x := by rw [← h.untouched id haggregator halive, hx]
      have hbound := h.bounded id x hx
      refine ⟨hlimit, halive, Or.inr ⟨x, [], hbase, hfollows, ?_, ?_⟩⟩
      · rw [hlimit]
        exact ⟨Int.natCast_nonneg x, by exact_mod_cast hbound⟩
      · rw [List.sum_nil, add_zero]
  | some aggregator =>
      obtain ⟨hlimit, -, x', hx', hstands⟩ := h.held id aggregator haggregator
      obtain rfl : x = x' := Option.some.inj (hx.symm.trans hx')
      rw [getAggregator_held haggregator]
      exact ⟨hlimit, halive, hstands⟩

/-- The instance of an aggregator that does not exist fails to resolve. -/
theorem Simulates.missing (h : Simulates limit base data values) (hempty : data.destroyedAggregators = ∅)
    (hx : values id = none) :
    (data.getAggregator id (limit id)).limit = limit id ∧ (data.getAggregator id (limit id)).Doomed (base id) := by
  cases haggregator : data.aggregators id with
  | none =>
      obtain ⟨hfollows, hlimit⟩ := getAggregator_fresh limit haggregator
      have hbase : base id = none := by
        rw [← h.untouched id haggregator (by simp [hempty]), hx]
      refine ⟨hlimit, [], hfollows, fun b hb => ?_⟩
      rw [hbase] at hb
      cases hb
  | some aggregator =>
      obtain ⟨-, -, x', hx', -⟩ := h.held id aggregator haggregator
      rw [hx] at hx'
      cases hx'

/-- Storing an instance that stands for the new value of an aggregator that exists. -/
theorem Simulates.set (h : Simulates limit base data values) (halive : id ∉ data.destroyedAggregators)
    (hlimit : aggregator.limit = limit id) (hx : x ≤ limit id) (hstands : aggregator.Stands (base id) x)
    (hexists : values id ≠ none) : Simulates limit base (data.set id aggregator) (Function.update values id (some x)) where
  bounded i x' hx' := by
    by_cases hi : i = id
    · subst hi
      rw [Function.update_self] at hx'
      obtain rfl := Option.some.inj hx'
      exact hx
    · rw [Function.update_of_ne hi] at hx'
      exact h.bounded i x' hx'
  held i aggregator' hi' := by
    by_cases hi : i = id
    · subst hi
      rw [AggregatorData.set_aggregators_self] at hi'
      obtain rfl := Option.some.inj hi'
      exact ⟨hlimit, halive, x, Function.update_self _ _ _, hstands⟩
    · rw [AggregatorData.set_aggregators_of_ne _ _ hi] at hi'
      rw [Function.update_of_ne hi]
      exact h.held i aggregator' hi'
  destroyed i hi := by
    have hne : i ≠ id := fun heq => halive (heq ▸ hi)
    rw [Function.update_of_ne hne]
    exact h.destroyed i hi
  untouched i hi halive' := by
    have hne : i ≠ id := fun heq => by
      rw [heq, AggregatorData.set_aggregators_self] at hi
      cases hi
    rw [AggregatorData.set_aggregators_of_ne _ _ hne] at hi
    rw [Function.update_of_ne hne]
    exact h.untouched i hi halive'
  created := h.created
  stored := h.stored
  new i hi hbase := by
    by_cases heq : i = id
    · rw [heq] at hbase ⊢
      exact h.new id hexists hbase
    · rw [Function.update_of_ne heq] at hi
      exact h.new i hi hbase

/-- Removing an aggregator that exists. -/
theorem Simulates.remove (h : Simulates limit base data values) (hexists : values id ≠ none) :
    Simulates limit base (data.removeAggregator id) (Function.update values id none) where
  bounded i x' hx' := by
    by_cases hi : i = id
    · rw [hi, Function.update_self] at hx'
      cases hx'
    · rw [Function.update_of_ne hi] at hx'
      exact h.bounded i x' hx'
  held i aggregator' hi' := by
    have hne : i ≠ id := fun heq => by
      rw [heq, AggregatorData.removeAggregator_self] at hi'
      cases hi'
    rw [AggregatorData.removeAggregator_of_ne _ hne] at hi'
    rw [Function.update_of_ne hne]
    obtain ⟨hlimit, halive, hstands⟩ := h.held i aggregator' hi'
    refine ⟨hlimit, ?_, hstands⟩
    rw [AggregatorData.mem_removeAggregator_destroyed]
    exact fun hmem => hmem.elim halive fun hdestroyed => hne hdestroyed.1
  destroyed i hi := by
    by_cases heq : i = id
    · rw [heq, Function.update_self]
    · rw [Function.update_of_ne heq]
      rw [AggregatorData.mem_removeAggregator_destroyed] at hi
      exact h.destroyed i (hi.resolve_right fun hdestroyed => heq hdestroyed.1)
  untouched i hi halive := by
    rw [AggregatorData.mem_removeAggregator_destroyed, not_or] at halive
    by_cases heq : i = id
    · subst heq
      rw [Function.update_self]
      have hnew : i ∈ data.newAggregators := by
        by_contra hnot
        exact halive.2 ⟨rfl, hnot⟩
      exact (h.created i hnew).symm
    · rw [AggregatorData.removeAggregator_of_ne _ heq] at hi
      rw [Function.update_of_ne heq]
      exact h.untouched i hi halive.1
  created i hi := h.created i (AggregatorData.removeAggregator_new_subset data id hi)
  stored i hi := by
    rcases (AggregatorData.mem_removeAggregator_destroyed data).mp hi with hi | ⟨rfl, hnew⟩
    · exact h.stored i hi
    · exact fun hbase => hnew (h.new i hexists hbase)
  new i hi hbase := by
    have hne : i ≠ id := fun heq => by
      rw [heq, Function.update_self] at hi
      exact hi rfl
    rw [Function.update_of_ne hne] at hi
    exact AggregatorData.mem_removeAggregator_new data hne (h.new i hi hbase)

/-- A new aggregator has an id that is not in storage. -/
theorem Simulates.create (h : Simulates limit base data values) (hbase : base id = none) :
    Simulates limit base (data.createNewAggregator id (limit id)) (Function.update values id (some 0)) where
  bounded i x' hx' := by
    by_cases hi : i = id
    · rw [hi, Function.update_self] at hx'
      obtain rfl := Option.some.inj hx'
      exact Nat.zero_le _
    · rw [Function.update_of_ne hi] at hx'
      exact h.bounded i x' hx'
  held i aggregator' hi' := by
    by_cases hi : i = id
    · subst hi
      obtain rfl := Option.some.inj ((AggregatorData.set_aggregators_self data i _).symm.trans hi')
      exact ⟨rfl, fun hmem => h.stored i hmem hbase, 0, Function.update_self _ _ _, Or.inl ⟨rfl, rfl⟩⟩
    · have hheld := (AggregatorData.set_aggregators_of_ne data _ hi).symm.trans hi'
      rw [Function.update_of_ne hi]
      exact h.held i aggregator' hheld
  destroyed i hi := by
    have hne : i ≠ id := fun heq => h.stored i hi (heq ▸ hbase)
    rw [Function.update_of_ne hne]
    exact h.destroyed i hi
  untouched i hi halive := by
    have hne : i ≠ id := fun heq => by
      rw [heq] at hi
      cases (AggregatorData.set_aggregators_self data id _).symm.trans hi
    rw [Function.update_of_ne hne]
    exact h.untouched i ((AggregatorData.set_aggregators_of_ne data _ hne).symm.trans hi) halive
  created i hi := by
    rcases Finset.mem_insert.mp hi with rfl | hmem
    · exact hbase
    · exact h.created i hmem
  stored := h.stored
  new i hi hbase' := by
    by_cases heq : i = id
    · rw [heq]
      exact Finset.mem_insert_self id data.newAggregators
    · rw [Function.update_of_ne heq] at hi
      exact Finset.mem_insert_of_mem (h.new i hi hbase')

/-- **One call.** What a call does to the values, the native call does to what stands for them. -/
theorem Simulates.step (bcs : Bcs) (h : Simulates limit base data values) (hlimit : ∀ id, limit id < 2 ^ 128)
    (hfresh : ∀ id, call = .newAggregator id → base id = none)
    (hcall : immediate limit values call = some (out, values')) :
    ∃ next, native bcs (fun id => Aggregator.stored bcs (base id)) limit data call = .ok (out, next) ∧
      Simulates limit base next values' := by
  cases call with
  | newAggregator id =>
      obtain ⟨rfl, rfl⟩ := Prod.mk.inj (Option.some.inj hcall)
      exact ⟨_, rfl, h.create (hfresh id rfl)⟩
  | add id value =>
      obtain ⟨x, hx, hrest⟩ := Option.bind_eq_some_iff.mp hcall
      split at hrest
      · next hle =>
          obtain ⟨rfl, rfl⟩ := Prod.mk.inj (Option.some.inj hrest)
          obtain ⟨hlim, halive, hstands⟩ := h.current hx
          obtain ⟨aggregator, hadd, hlim', hstands'⟩ := hstands.add (by rwa [hlim])
          have hexists : values id ≠ none := Option.ne_none_iff_exists'.mpr ⟨x, hx⟩
          refine ⟨data.set id aggregator, ?_, h.set halive (hlim'.trans hlim) hle hstands' hexists⟩
          rw [native, hadd, ok_bind]
          rfl
      · cases hrest
  | sub id value =>
      obtain ⟨x, hx, hrest⟩ := Option.bind_eq_some_iff.mp hcall
      split at hrest
      · next hle =>
          obtain ⟨rfl, rfl⟩ := Prod.mk.inj (Option.some.inj hrest)
          obtain ⟨hlim, halive, hstands⟩ := h.current hx
          have hbound := h.bounded id x hx
          obtain ⟨aggregator, hsub, hlim', hstands'⟩ := hstands.sub (by rwa [hlim]) hle
          have hexists : values id ≠ none := Option.ne_none_iff_exists'.mpr ⟨x, hx⟩
          refine ⟨data.set id aggregator, ?_,
            h.set halive (hlim'.trans hlim) ((Nat.sub_le _ _).trans hbound) hstands' hexists⟩
          rw [native, hsub, ok_bind]
          rfl
      · cases hrest
  | read id =>
      obtain ⟨x, hx, hrest⟩ := Option.bind_eq_some_iff.mp hcall
      obtain ⟨rfl, rfl⟩ := Prod.mk.inj (Option.some.inj hrest)
      obtain ⟨hlim, halive, hstands⟩ := h.current hx
      obtain ⟨aggregator, hread, hlim', hstands'⟩ := hstands.read bcs (by rw [hlim]; exact hlimit id)
      have hexists : values id ≠ none := Option.ne_none_iff_exists'.mpr ⟨x, hx⟩
      have hset := h.set halive (hlim'.trans hlim) (h.bounded id x hx) hstands' hexists
      rw [← hx, Function.update_eq_self] at hset
      refine ⟨data.set id aggregator, ?_, hset⟩
      rw [native, hread, ok_bind]
      rfl
  | destroy id =>
      obtain ⟨x, hx, hrest⟩ := Option.bind_eq_some_iff.mp hcall
      obtain ⟨rfl, rfl⟩ := Prod.mk.inj (Option.some.inj hrest)
      exact ⟨_, rfl, h.remove (Option.ne_none_iff_exists'.mpr ⟨x, hx⟩)⟩

/-- A check that was put off will fail, whatever the transaction does next. -/
def SomeDoomed (base : Values) (used : AggregatorID → Prop) (data : AggregatorData) : Prop :=
  ∃ id aggregator, data.aggregators id = some aggregator ∧ aggregator.Doomed (base id) ∧ used id

theorem someDoomed_set (hdoomed : aggregator.Doomed (base id)) :
    SomeDoomed base (fun i => used i ∨ i = id) (data.set id aggregator) :=
  ⟨id, aggregator, AggregatorData.set_aggregators_self data id aggregator, hdoomed, Or.inr rfl⟩

/-- A call that fails on the values fails, or leaves a check that will. -/
theorem Simulates.step_doomed (h : Simulates limit base data values) (hlimit : ∀ id, limit id < 2 ^ 128)
    (hbase : ∀ id b, base id = some b → b ≤ limit id) (hempty : data.destroyedAggregators = ∅)
    (hkeep : ∀ id, call ≠ .destroy id) (hcall : immediate limit values call = none)
    (hnative : native bcs (fun id => Aggregator.stored bcs (base id)) limit data call = .ok (out, next))
    (used : AggregatorID → Prop) : SomeDoomed base (fun id => used id ∨ id = call.id) next := by
  have hsmall := stored_lt hlimit hbase
  cases call with
  | newAggregator id => cases hcall
  | destroy id => exact absurd rfl (hkeep id)
  | add id value =>
      obtain ⟨aggregator, hadd, hnext⟩ := bind_eq_ok.mp hnative
      obtain ⟨rfl, rfl⟩ := Prod.mk.inj (pure_eq_ok.mp hnext)
      cases hx : values id with
      | none => exact someDoomed_set ((h.missing hempty hx).2.add hadd).1
      | some x =>
          obtain ⟨hlim, -, hstands⟩ := h.current hx
          have hle : ¬x + value ≤ limit id := fun hle => by
            simp [immediate, hx, hle] at hcall
          exact someDoomed_set (hstands.add_doomed (by rwa [hlim]) hadd).1
  | sub id value =>
      obtain ⟨aggregator, hsub, hnext⟩ := bind_eq_ok.mp hnative
      obtain ⟨rfl, rfl⟩ := Prod.mk.inj (pure_eq_ok.mp hnext)
      cases hx : values id with
      | none => exact someDoomed_set ((h.missing hempty hx).2.sub hsub).1
      | some x =>
          obtain ⟨hlim, -, hstands⟩ := h.current hx
          have hle : ¬value ≤ x := fun hle => by
            simp [immediate, hx, hle] at hcall
          exact someDoomed_set (hstands.sub_doomed hle hsub).1
  | read id =>
      obtain ⟨⟨value, aggregator⟩, hread, -⟩ := bind_eq_ok.mp hnative
      have hx : values id = none := by
        cases hx : values id with
        | none => rfl
        | some x => simp [immediate, hx] at hcall
      exact absurd hread ((h.missing hempty hx).2.read (hsmall id))

/-- No call but `destroy` removes a check that will fail. -/
theorem SomeDoomed.step (h : SomeDoomed base used data) (hsmall : ∀ id b, base id = some b → b < 2 ^ 128)
    (hfresh : ∀ id, call = .newAggregator id → ¬used id) (hkeep : ∀ id, call ≠ .destroy id)
    (hnative : native bcs (fun id => Aggregator.stored bcs (base id)) limit data call = .ok (out, next)) :
    SomeDoomed base (fun id => used id ∨ id = call.id) next := by
  obtain ⟨i, doomed, hi, hdoomed, hused⟩ := h
  have hother : ∀ {id aggregator}, i ≠ id → SomeDoomed base (fun j => used j ∨ j = id) (data.set id aggregator) :=
    fun hne => ⟨i, doomed, by rwa [AggregatorData.set_aggregators_of_ne _ _ hne], hdoomed, Or.inl hused⟩
  cases call with
  | destroy id => exact absurd rfl (hkeep id)
  | newAggregator id =>
      obtain ⟨rfl, rfl⟩ := Prod.mk.inj (Except.ok.inj hnative)
      have hne : i ≠ id := fun heq => hfresh id rfl (heq ▸ hused)
      exact hother hne
  | add id value =>
      obtain ⟨aggregator, hadd, hnext⟩ := bind_eq_ok.mp hnative
      obtain ⟨rfl, rfl⟩ := Prod.mk.inj (pure_eq_ok.mp hnext)
      by_cases heq : i = id
      · subst heq
        rw [getAggregator_held hi] at hadd
        exact someDoomed_set (hdoomed.add hadd).1
      · exact hother heq
  | sub id value =>
      obtain ⟨aggregator, hsub, hnext⟩ := bind_eq_ok.mp hnative
      obtain ⟨rfl, rfl⟩ := Prod.mk.inj (pure_eq_ok.mp hnext)
      by_cases heq : i = id
      · subst heq
        rw [getAggregator_held hi] at hsub
        exact someDoomed_set (hdoomed.sub hsub).1
      · exact hother heq
  | read id =>
      obtain ⟨⟨value, aggregator⟩, hread, hnext⟩ := bind_eq_ok.mp hnative
      obtain ⟨rfl, rfl⟩ := Prod.mk.inj (pure_eq_ok.mp hnext)
      by_cases heq : i = id
      · subst heq
        rw [getAggregator_held hi] at hread
        exact absurd hread (hdoomed.read (hsmall i))
      · exact hother heq

/-- Every call but `destroy` leaves the aggregators that were destroyed as they are. -/
theorem native_destroyed (hkeep : ∀ id, call ≠ .destroy id)
    (hnative : native bcs (fun id => Aggregator.stored bcs (base id)) limit data call = .ok (out, next)) :
    next.destroyedAggregators = data.destroyedAggregators := by
  cases call with
  | destroy id => exact absurd rfl (hkeep id)
  | newAggregator id =>
      obtain ⟨rfl, rfl⟩ := Prod.mk.inj (Except.ok.inj hnative)
      rfl
  | add id value =>
      obtain ⟨aggregator, -, hnext⟩ := bind_eq_ok.mp hnative
      obtain ⟨rfl, rfl⟩ := Prod.mk.inj (pure_eq_ok.mp hnext)
      rfl
  | sub id value =>
      obtain ⟨aggregator, -, hnext⟩ := bind_eq_ok.mp hnative
      obtain ⟨rfl, rfl⟩ := Prod.mk.inj (pure_eq_ok.mp hnext)
      rfl
  | read id =>
      obtain ⟨⟨value, aggregator⟩, -, hnext⟩ := bind_eq_ok.mp hnative
      obtain ⟨rfl, rfl⟩ := Prod.mk.inj (pure_eq_ok.mp hnext)
      rfl

/-! ### The end of the transaction -/

/-- The changes leave the values in storage. -/
theorem Simulates.materialize (h : Simulates limit base data values) (hlimit : ∀ id, limit id < 2 ^ 128)
    (id : AggregatorID) :
    materialize bcs (data.intoChangeSet id) (base id) = .ok ((values id).map bcs.toBytes) := by
  rw [AggregatorData.intoChangeSet]
  split
  · next hmem =>
      rw [h.destroyed id hmem]
      rfl
  · next halive =>
      cases haggregator : data.aggregators id with
      | none =>
          rw [h.untouched id haggregator halive]
          rfl
      | some aggregator =>
          obtain ⟨hlim, -, x, hx, hstands⟩ := h.held id aggregator haggregator
          have hwrite := hstands.writeOp bcs (by rw [hlim]; exact hlimit id)
          rw [hx, Option.map_some, Executor.materialize]
          simp only [hwrite, ok_bind]
          rfl

/-- A check that was put off fails at the latest when the changes are materialized. -/
theorem SomeDoomed.materialize (h : SomeDoomed base used data) (hsmall : ∀ id b, base id = some b → b < 2 ^ 128)
    (hempty : data.destroyedAggregators = ∅) :
    ∃ id, ∀ entry, materialize bcs (data.intoChangeSet id) (base id) ≠ .ok entry := by
  obtain ⟨id, aggregator, hid, hdoomed, -⟩ := h
  refine ⟨id, fun entry hentry => ?_⟩
  rw [AggregatorData.intoChangeSet, if_neg (by simp [hempty]), hid, Option.map_some, Executor.materialize] at hentry
  obtain ⟨op, hop, -⟩ := bind_eq_ok.mp hentry
  exact hdoomed.writeOp (hsmall id) hop

end Calls

/-! ### Whole transactions -/

section Transactions

variable {bcs : Bcs} {limit : AggregatorID → ℕ} {base values last : Values} {used : AggregatorID → Prop}
  {data final : AggregatorData} {calls : List Native} {outs : List (Option ℕ)}

theorem simulates_default (hbase : ∀ id b, base id = some b → b ≤ limit id) :
    Simulates limit base AggregatorData.default base where
  bounded := hbase
  held := nofun
  destroyed := nofun
  untouched _ _ _ := rfl
  created := nofun
  stored := nofun
  new _ hid hbase := absurd hbase hid

theorem Simulates.run (h : Simulates limit base data values) (hlimit : ∀ id, limit id < 2 ^ 128)
    (hfresh : ∀ id, .newAggregator id ∈ calls → base id = none)
    (hcalls : immediates limit values calls = some (outs, last)) :
    ∃ final, natives bcs (fun id => Aggregator.stored bcs (base id)) limit data calls = .ok (outs, final) ∧
      Simulates limit base final last := by
  induction calls generalizing data values outs with
  | nil =>
      obtain ⟨rfl, rfl⟩ := Prod.mk.inj (Option.some.inj hcalls)
      exact ⟨data, rfl, h⟩
  | cons call calls ih =>
      obtain ⟨⟨out, values'⟩, hcall, hrest⟩ := Option.bind_eq_some_iff.mp hcalls
      obtain ⟨⟨outs', last'⟩, htail, hlast⟩ := Option.bind_eq_some_iff.mp hrest
      obtain ⟨rfl, rfl⟩ := Prod.mk.inj (Option.some.inj hlast)
      obtain ⟨next, hnative, hnext⟩ :=
        h.step bcs hlimit (fun id heq => hfresh id (heq ▸ List.mem_cons_self)) hcall
      obtain ⟨final, hnatives, hfinal⟩ := ih hnext (fun id hmem => hfresh id (List.mem_cons_of_mem _ hmem)) htail
      refine ⟨final, ?_, hfinal⟩
      simp only [natives, hnative, hnatives, ok_bind]
      rfl

/-- Keys that were not used before are not in storage. -/
theorem FreshKeys.not_used (h : FreshKeys used calls) {id : AggregatorID} (hmem : .newAggregator id ∈ calls) :
    ¬used id := by
  induction calls generalizing used with
  | nil => cases hmem
  | cons call calls ih =>
      rcases List.mem_cons.mp hmem with hcall | hlater
      · exact h.1 id hcall.symm
      · exact fun hused => ih h.2 hlater (Or.inl hused)

theorem FreshKeys.unstored (h : FreshKeys (fun id => base id ≠ none) calls) :
    ∀ id, .newAggregator id ∈ calls → base id = none :=
  fun _ hmem => not_not.mp (h.not_used hmem)

theorem SomeDoomed.run (h : SomeDoomed base used data) (hsmall : ∀ id b, base id = some b → b < 2 ^ 128)
    (hfresh : FreshKeys used calls) (hkeep : ∀ id, .destroy id ∉ calls)
    (hnatives : natives bcs (fun id => Aggregator.stored bcs (base id)) limit data calls = .ok (outs, final)) :
    (∃ used', SomeDoomed base used' final) ∧ final.destroyedAggregators = data.destroyedAggregators := by
  induction calls generalizing data used outs with
  | nil =>
      obtain ⟨rfl, rfl⟩ := Prod.mk.inj (Except.ok.inj hnatives)
      exact ⟨⟨used, h⟩, rfl⟩
  | cons call calls ih =>
      obtain ⟨⟨out, next⟩, hnative, hrest⟩ := bind_eq_ok.mp hnatives
      obtain ⟨⟨outs', last⟩, htail, hlast⟩ := bind_eq_ok.mp hrest
      obtain ⟨rfl, rfl⟩ := Prod.mk.inj (Except.ok.inj hlast)
      have hcall : ∀ id, call ≠ .destroy id := fun id heq => hkeep id (heq ▸ List.mem_cons_self)
      have hdoomed := h.step hsmall hfresh.1 hcall hnative
      obtain ⟨hlater, hdestroyed⟩ :=
        ih hdoomed hfresh.2 (fun id hmem => hkeep id (List.mem_cons_of_mem _ hmem)) htail
      exact ⟨hlater, hdestroyed.trans (native_destroyed hcall hnative)⟩

theorem Simulates.run_doomed (h : Simulates limit base data values) (hlimit : ∀ id, limit id < 2 ^ 128)
    (hbase : ∀ id b, base id = some b → b ≤ limit id) (hempty : data.destroyedAggregators = ∅)
    (hfresh : FreshKeys used calls) (hused : ∀ id, base id ≠ none → used id) (hkeep : ∀ id, .destroy id ∉ calls)
    (hcalls : immediates limit values calls = none)
    (hnatives : natives bcs (fun id => Aggregator.stored bcs (base id)) limit data calls = .ok (outs, final)) :
    (∃ used', SomeDoomed base used' final) ∧ final.destroyedAggregators = ∅ := by
  have hsmall := stored_lt hlimit hbase
  induction calls generalizing data values used outs with
  | nil => cases hcalls
  | cons call calls ih =>
      obtain ⟨⟨out, next⟩, hnative, hrest⟩ := bind_eq_ok.mp hnatives
      obtain ⟨⟨outs', last⟩, htail, hlast⟩ := bind_eq_ok.mp hrest
      obtain ⟨rfl, rfl⟩ := Prod.mk.inj (Except.ok.inj hlast)
      have hcall : ∀ id, call ≠ .destroy id := fun id heq => hkeep id (heq ▸ List.mem_cons_self)
      have hkeep' : ∀ id, .destroy id ∉ calls := fun id hmem => hkeep id (List.mem_cons_of_mem _ hmem)
      have hnext := (native_destroyed hcall hnative).trans hempty
      cases himm : immediate limit values call with
      | none =>
          have hdoomed := h.step_doomed hlimit hbase hempty hcall himm hnative used
          obtain ⟨hlater, hdestroyed⟩ := hdoomed.run hsmall hfresh.2 hkeep' htail
          exact ⟨hlater, hdestroyed.trans hnext⟩
      | some result =>
          obtain ⟨out', values'⟩ := result
          have hnew : ∀ id, call = .newAggregator id → base id = none :=
            fun id heq => not_not.mp fun hid => hfresh.1 id heq (hused id hid)
          obtain ⟨next', hnative', hsim⟩ := h.step bcs hlimit hnew himm
          obtain ⟨-, rfl⟩ := Prod.mk.inj (Except.ok.inj (hnative'.symm.trans hnative))
          refine ih hsim hnext hfresh.2 (fun id hid => Or.inl (hused id hid)) hkeep' ?_ htail
          cases himms : immediates limit values' calls with
          | none => rfl
          | some result =>
              simp only [immediates, himm, himms, Option.bind_eq_bind, Option.bind_some] at hcalls
              cases hcalls

/-- **A transaction on the values.** If no aggregator is created under an id that is in storage, and every call of
the transaction succeeds with the values at hand, the native calls return the same and the changes of the
transaction leave the same values in storage. -/
theorem natives_of_immediates (bcs : Bcs) (hlimit : ∀ id, limit id < 2 ^ 128)
    (hbase : ∀ id b, base id = some b → b ≤ limit id) (hfresh : ∀ id, .newAggregator id ∈ calls → base id = none)
    (hcalls : immediates limit base calls = some (outs, last)) :
    ∃ final, natives bcs (fun id => Aggregator.stored bcs (base id)) limit .default calls = .ok (outs, final) ∧
      ∀ id, materialize bcs (final.intoChangeSet id) (base id) = .ok ((last id).map bcs.toBytes) := by
  obtain ⟨final, hnatives, hfinal⟩ := (simulates_default hbase).run hlimit hfresh hcalls
  exact ⟨final, hnatives, hfinal.materialize hlimit⟩

/-- One aggregator in storage, with five of at most ten. -/
def fiveOfTen : Values := fun id => if id = ⟨1, 7⟩ then some 5 else none

theorem fiveOfTen_le (id : AggregatorID) (b : ℕ) (h : fiveOfTen id = some b) : b ≤ 10 := by
  rw [fiveOfTen] at h
  split at h
  · obtain rfl := Option.some.inj h
    decide
  · cases h

/-- The stored aggregator is used and destroyed, and another one is created, used, destroyed and created again. -/
theorem natives_of_immediates_small :
    ∃ final, natives .u128 (fun id => Aggregator.stored .u128 (fiveOfTen id)) (fun _ => 10) .default
        [.sub ⟨1, 7⟩ 4, .newAggregator ⟨1, 8⟩, .add ⟨1, 8⟩ 9, .read ⟨1, 8⟩, .destroy ⟨1, 7⟩, .destroy ⟨1, 8⟩,
          .newAggregator ⟨1, 8⟩] = .ok ([none, none, none, some 9, none, none, none], final) ∧
      ∀ id, materialize .u128 (final.intoChangeSet id) (fiveOfTen id) =
        .ok (if id = ⟨1, 8⟩ then some (Bcs.u128.toBytes 0) else none) := by
  obtain ⟨final, hnatives, hentries⟩ := natives_of_immediates .u128 (fun _ => by norm_num) fiveOfTen_le
    (by simp [fiveOfTen]) (show immediates (fun _ => 10) fiveOfTen
      [.sub ⟨1, 7⟩ 4, .newAggregator ⟨1, 8⟩, .add ⟨1, 8⟩ 9, .read ⟨1, 8⟩, .destroy ⟨1, 7⟩, .destroy ⟨1, 8⟩,
        .newAggregator ⟨1, 8⟩] = some ([none, none, none, some 9, none, none, none], _) from rfl)
  refine ⟨final, hnatives, fun id => (hentries id).trans ?_⟩
  by_cases hnew : id = ⟨1, 8⟩
  · rw [hnew, Function.update_self]
    rfl
  · by_cases hold : id = ⟨1, 7⟩ <;> simp [Function.update, fiveOfTen, hnew, hold]

/-- **Deferred checks are sound.** For a transaction that destroys no aggregator, the native calls succeed and
their changes can be materialized exactly if every call succeeds with the values at hand, and then both
return the same and leave the same in storage. -/
theorem natives_iff_immediates (bcs : Bcs) (limit : AggregatorID → ℕ) (base : Values) (calls : List Native)
    (outs : List (Option ℕ)) (entries : AggregatorID → Option (List UInt8)) (hlimit : ∀ id, limit id < 2 ^ 128)
    (hbase : ∀ id b, base id = some b → b ≤ limit id) (hfresh : FreshKeys (fun id => base id ≠ none) calls)
    (hkeep : ∀ id, .destroy id ∉ calls) :
    (∃ final, natives bcs (fun id => Aggregator.stored bcs (base id)) limit .default calls = .ok (outs, final) ∧
        ∀ id, materialize bcs (final.intoChangeSet id) (base id) = .ok (entries id)) ↔
      ∃ last, immediates limit base calls = some (outs, last) ∧ entries = fun id => (last id).map bcs.toBytes := by
  have hsmall := stored_lt hlimit hbase
  constructor
  · rintro ⟨final, hnatives, hentries⟩
    cases himm : immediates limit base calls with
    | none =>
        obtain ⟨⟨used, hdoomed⟩, hempty⟩ :=
          (simulates_default hbase).run_doomed hlimit hbase rfl hfresh (fun _ => id) hkeep himm hnatives
        obtain ⟨id, hid⟩ := hdoomed.materialize hsmall hempty
        exact absurd (hentries id) (hid _)
    | some result =>
        obtain ⟨final', hnatives', hfinal⟩ := (simulates_default hbase).run hlimit hfresh.unstored himm
        obtain ⟨rfl, rfl⟩ := Prod.mk.inj (Except.ok.inj (hnatives.symm.trans hnatives'))
        refine ⟨result.2, rfl, ?_⟩
        funext id
        exact Except.ok.inj ((hentries id).symm.trans (hfinal.materialize hlimit id))
  · rintro ⟨last, himm, rfl⟩
    obtain ⟨final, hnatives, hfinal⟩ := (simulates_default hbase).run hlimit hfresh.unstored himm
    exact ⟨final, hnatives, hfinal.materialize hlimit⟩

/-- A stored value that goes down and up before it is read. -/
theorem natives_iff_immediates_small :
    (∃ final, natives .u128 (fun id => Aggregator.stored .u128 (fiveOfTen id)) (fun _ => 10) .default
        [.sub ⟨1, 7⟩ 4, .add ⟨1, 7⟩ 6, .read ⟨1, 7⟩] = .ok ([none, none, some 7], final) ∧
        ∀ id, materialize .u128 (final.intoChangeSet id) (fiveOfTen id) =
          .ok (if id = ⟨1, 7⟩ then some (Bcs.u128.toBytes 7) else none)) ↔
      ∃ last, immediates (fun _ => 10) fiveOfTen [.sub ⟨1, 7⟩ 4, .add ⟨1, 7⟩ 6, .read ⟨1, 7⟩] =
          some ([none, none, some 7], last) ∧
        (fun id => if id = ⟨1, 7⟩ then some (Bcs.u128.toBytes 7) else none) =
          fun id => (last id).map Bcs.u128.toBytes :=
  natives_iff_immediates .u128 _ fiveOfTen _ _ _ (fun _ => by norm_num) fiveOfTen_le
    (by simp [FreshKeys, Native.id]) (by simp)

end Transactions

end MoveTutorial.Executor
