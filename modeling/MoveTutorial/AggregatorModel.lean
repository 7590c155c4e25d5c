import MoveTutorial.DeltaMerge

/-! Aggregators within one transaction. An aggregator that the transaction has not read is a delta
together with the extremes it went through; reading it fetches the stored value, checks the extremes
against it and turns the aggregator into a plain value. At the end the aggregators become the changes
of the transaction: values to be written, deltas to be merged, values to be deleted. -/

namespace MoveTutorial.Executor

open Results

/-- The library that encodes `u128` for the storage. -/
structure Bcs where
  toBytes : ℕ → List UInt8
  fromBytes : List UInt8 → Option ℕ
  fromBytes_toBytes : ∀ value < 2 ^ 128, fromBytes (toBytes value) = some value

/-- The lowest `n` bytes of a number, the lowest first. -/
def leBytes : ℕ → ℕ → List UInt8
  | 0, _ => []
  | n + 1, value => UInt8.ofNat value :: leBytes n (value / 256)

def ofLeBytes : List UInt8 → ℕ
  | [] => 0
  | byte :: bytes => byte.toNat + 256 * ofLeBytes bytes

theorem length_leBytes (n value : ℕ) : (leBytes n value).length = n := by
  induction n generalizing value with
  | zero => rfl
  | succ n ih => rw [leBytes, List.length_cons, ih]

theorem ofLeBytes_leBytes (n value : ℕ) : ofLeBytes (leBytes n value) = value % 256 ^ n := by
  induction n generalizing value with
  | zero => rw [leBytes, ofLeBytes, pow_zero, Nat.mod_one]
  | succ n ih =>
      rw [leBytes, ofLeBytes, ih, pow_succ', Nat.mod_mul]
      rfl

/-- The encoding of `u128`: sixteen bytes, the lowest first. -/
def Bcs.u128 : Bcs where
  toBytes := leBytes 16
  fromBytes bytes := if bytes.length = 16 then some (ofLeBytes bytes) else none
  fromBytes_toBytes value hvalue := by
    rw [if_pos (length_leBytes 16 value), ofLeBytes_leBytes, Nat.mod_eq_of_lt (hvalue.trans_eq (by norm_num))]

/-- `bcs::to_bytes(value).expect(..)`, which does not fail on `u128`. -/
def serialize (bcs : Bcs) (value : ℕ) : List UInt8 := bcs.toBytes value

/-- `bcs::from_bytes(value_bytes).expect(..)`. -/
def deserialize (bcs : Bcs) (valueBytes : List UInt8) : VmResult ℕ :=
  match bcs.fromBytes valueBytes with
  | some value => .ok value
  | none => .error .panic

inductive AggregatorState where
  /-- the aggregator stores a known value -/
  | data
  /-- the aggregator stores a non-negative delta -/
  | positiveDelta
  /-- the aggregator stores a negative delta -/
  | negativeDelta
  deriving DecidableEq, Repr

structure History where
  maxPositive : ℕ
  minNegative : ℕ
  deriving DecidableEq, Repr

def History.new : History := ⟨0, 0⟩

def History.recordPositive (self : History) (value : ℕ) : History :=
  { self with maxPositive := max self.maxPositive value }

def History.recordNegative (self : History) (value : ℕ) : History :=
  { self with minNegative := max self.minNegative value }

structure Aggregator where
  value : ℕ
  state : AggregatorState
  limit : ℕ
  history : Option History
  /-- history is not tracked when the aggregator knows its value -/
  tracked : history.isSome ↔ state ≠ .data

/-- The error of `read_and_materialize` for a value that is not in storage. -/
def extensionError (message : String) : Failure := .vm .vmExtensionError (some message) none

namespace Aggregator

/-- Records the observed delta in the history. -/
def record (self : Aggregator) : Aggregator :=
  match self.state with
  | .positiveDelta =>
      { self with
        history := self.history.map fun history => history.recordPositive self.value
        tracked := by rw [Option.isSome_map, self.tracked] }
  | .negativeDelta =>
      { self with
        history := self.history.map fun history => history.recordNegative self.value
        tracked := by rw [Option.isSome_map, self.tracked] }
  | .data => self

def add (self : Aggregator) (value : ℕ) : VmResult Aggregator :=
  match hstate : self.state with
  | .data => do
      let sum ← addition self.value value self.limit
      return { self with value := sum }
  | .positiveDelta => do
      let sum ← addition self.value value self.limit
      return { self with value := sum }.record
  | .negativeDelta =>
      if self.value ≤ value then do
        let difference ← subtraction value self.value
        return { self with
          value := difference
          state := .positiveDelta
          tracked := by simp [self.tracked, hstate] }.record
      else do
        let difference ← subtraction self.value value
        return { self with value := difference }.record

def sub (self : Aggregator) (value : ℕ) : VmResult Aggregator :=
  match hstate : self.state with
  | .data => do
      let difference ← subtraction self.value value
      return { self with value := difference }
  | .positiveDelta =>
      if self.value ≥ value then do
        let difference ← subtraction self.value value
        return { self with value := difference }.record
      else do
        -- no delta goes below `-limit`
        let _ ← subtraction self.limit value
        let difference ← subtraction value self.value
        return { self with
          value := difference
          state := .negativeDelta
          tracked := by simp [self.tracked, hstate] }.record
  | .negativeDelta => do
      let sum ← addition self.value value self.limit
      return { self with value := sum }.record

/-- The stored value with the delta applied, once its history has been checked. -/
def resolve (self : Aggregator) (valueFromStorage : ℕ) : VmResult ℕ :=
  match self.history with
  | none => .error .panic
  | some history => do
      let _ ← addition valueFromStorage history.maxPositive self.limit
      let _ ← subtraction valueFromStorage history.minNegative
      match self.state with
      | .positiveDelta => addition valueFromStorage self.value self.limit
      | .negativeDelta => subtraction valueFromStorage self.value
      | .data => .error .panic

/-- `read_and_materialize`, where `entry` is what the resolver finds under the id. -/
def readAndMaterialize (self : Aggregator) (bcs : Bcs) (entry : Except Unit (Option (List UInt8))) :
    VmResult (ℕ × Aggregator) :=
  if self.state = .data then .ok (self.value, self)
  else
    match entry with
    | .error _ => .error (extensionError "could not find the value of the aggregator")
    | .ok none => .error (extensionError "could not find the value of the aggregator")
    | .ok (some bytes) => do
        let valueFromStorage ← deserialize bcs bytes
        let value ← self.resolve valueFromStorage
        return (value, { self with value := value, state := .data, history := none, tracked := by simp })

end Aggregator

structure AggregatorID where
  handle : ℕ
  key : ℕ
  deriving DecidableEq, Repr

/-- The aggregators of a transaction: those it created, those it destroyed and those it holds. -/
structure AggregatorData where
  newAggregators : Finset AggregatorID
  destroyedAggregators : Finset AggregatorID
  aggregators : AggregatorID → Option Aggregator

namespace AggregatorData

/-- `AggregatorData::default()`. -/
def default : AggregatorData := ⟨∅, ∅, fun _ => none⟩

def set (self : AggregatorData) (id : AggregatorID) (aggregator : Aggregator) : AggregatorData :=
  { self with aggregators := Function.update self.aggregators id (some aggregator) }

@[simp] theorem set_aggregators_self (self : AggregatorData) (id : AggregatorID) (aggregator : Aggregator) :
    (self.set id aggregator).aggregators id = some aggregator := Function.update_self _ _ _

theorem set_aggregators_of_ne (self : AggregatorData) {id i : AggregatorID} (aggregator : Aggregator) (h : i ≠ id) :
    (self.set id aggregator).aggregators i = self.aggregators i := Function.update_of_ne h _ _

/-- The instance with this id; an aggregator that the transaction did not initialize is a delta of
zero. -/
def getAggregator (self : AggregatorData) (id : AggregatorID) (limit : ℕ) : Aggregator :=
  (self.aggregators id).getD
    { value := 0
      state := .positiveDelta
      limit := limit
      history := some History.new
      tracked := by simp }

def createNewAggregator (self : AggregatorData) (id : AggregatorID) (limit : ℕ) : AggregatorData :=
  let aggregator : Aggregator :=
    { value := 0
      state := .data
      limit := limit
      history := none
      tracked := by simp }
  { self.set id aggregator with newAggregators := insert id self.newAggregators }

def removeAggregator (self : AggregatorData) (id : AggregatorID) : AggregatorData :=
  let aggregators := Function.update self.aggregators id none
  if id ∈ self.newAggregators then
    { self with aggregators := aggregators, newAggregators := self.newAggregators.erase id }
  else { self with aggregators := aggregators, destroyedAggregators := insert id self.destroyedAggregators }

@[simp] theorem removeAggregator_self (self : AggregatorData) (id : AggregatorID) :
    (self.removeAggregator id).aggregators id = none := by
  unfold removeAggregator
  split <;> exact Function.update_self _ _ _

theorem removeAggregator_of_ne (self : AggregatorData) {id i : AggregatorID} (h : i ≠ id) :
    (self.removeAggregator id).aggregators i = self.aggregators i := by
  unfold removeAggregator
  split <;> exact Function.update_of_ne h _ _

theorem mem_removeAggregator_destroyed (self : AggregatorData) {id i : AggregatorID} :
    i ∈ (self.removeAggregator id).destroyedAggregators ↔
      i ∈ self.destroyedAggregators ∨ i = id ∧ id ∉ self.newAggregators := by
  unfold removeAggregator
  split
  · next hnew => simp [hnew]
  · next hnew => simp [hnew, or_comm]

theorem mem_removeAggregator_new (self : AggregatorData) {id i : AggregatorID} (h : i ≠ id)
    (hmem : i ∈ self.newAggregators) : i ∈ (self.removeAggregator id).newAggregators := by
  unfold removeAggregator
  split
  · exact Finset.mem_erase.mpr ⟨h, hmem⟩
  · exact hmem

theorem removeAggregator_new_subset (self : AggregatorData) (id : AggregatorID) :
    (self.removeAggregator id).newAggregators ⊆ self.newAggregators := by
  unfold removeAggregator
  split
  · exact Finset.erase_subset _ _
  · exact Finset.Subset.refl _

end AggregatorData

inductive AggregatorChange where
  /-- a value to be written to storage -/
  | write (value : ℕ)
  /-- a delta to be merged with the value from storage -/
  | merge (delta : DeltaOp)
  /-- the value is to be deleted from the storage -/
  | delete
  deriving DecidableEq, Repr

/-- The change an aggregator makes at the end of the transaction. -/
def Aggregator.change (self : Aggregator) : AggregatorChange :=
  match hstate : self.state with
  | .data => .write self.value
  | .positiveDelta =>
      let history := self.history.get (self.tracked.mpr (by simp [hstate]))
      .merge ⟨history.maxPositive, history.minNegative, self.limit, .plus self.value⟩
  | .negativeDelta =>
      let history := self.history.get (self.tracked.mpr (by simp [hstate]))
      .merge ⟨history.maxPositive, history.minNegative, self.limit, .minus self.value⟩

/-- The changes of the transaction, by id. -/
abbrev AggregatorChangeSet := AggregatorID → Option AggregatorChange

/-- `into_change_set`: the destroyed values are deleted after all writes and deltas. -/
def AggregatorData.intoChangeSet (self : AggregatorData) : AggregatorChangeSet := fun id =>
  if id ∈ self.destroyedAggregators then some .delete else (self.aggregators id).map Aggregator.change

inductive WriteOp where
  | creation (data : List UInt8)
  | modification (data : List UInt8)
  | deletion
  deriving DecidableEq, Repr

/-- Materializes a delta with what the state holds under the key. -/
def DeltaOp.tryIntoWriteOp (self : DeltaOp) (bcs : Bcs) (entry : Except Unit (Option (List UInt8))) :
    VmResult WriteOp :=
  match entry with
  | .error _ => .error (.vm .storageError none none)
  | .ok none => .error (.vm .storageError none none)
  | .ok (some bytes) => do
      let base ← deserialize bcs bytes
      let result ← self.applyTo base
      return .modification (serialize bcs result)

/-- The write a change of an aggregator leads to. -/
def AggregatorChange.writeOp (self : AggregatorChange) (bcs : Bcs) (entry : Except Unit (Option (List UInt8))) :
    VmResult WriteOp :=
  match self with
  | .write value => .ok (.modification (serialize bcs value))
  | .merge delta => delta.tryIntoWriteOp bcs entry
  | .delete => .ok .deletion

/-- The native functions `new_aggregator`, `add`, `sub`, `read` and `destroy`. The key of a new
aggregator is a hash. -/
inductive Native where
  | newAggregator (id : AggregatorID)
  | add (id : AggregatorID) (value : ℕ)
  | sub (id : AggregatorID) (value : ℕ)
  | read (id : AggregatorID)
  | destroy (id : AggregatorID)
  deriving DecidableEq, Repr

section Natives

variable (bcs : Bcs) (resolver : AggregatorID → Except Unit (Option (List UInt8)))
  (limit : AggregatorID → ℕ)

/-- One native call. The limit of an aggregator is a field of the Move value. -/
def native (self : AggregatorData) : Native → VmResult (Option ℕ × AggregatorData)
  | .newAggregator id => .ok (none, self.createNewAggregator id (limit id))
  | .add id value => do
      let aggregator ← (self.getAggregator id (limit id)).add value
      return (none, self.set id aggregator)
  | .sub id value => do
      let aggregator ← (self.getAggregator id (limit id)).sub value
      return (none, self.set id aggregator)
  | .read id => do
      let (value, aggregator) ← (self.getAggregator id (limit id)).readAndMaterialize bcs (resolver id)
      return (some value, self.set id aggregator)
  | .destroy id => .ok (none, self.removeAggregator id)

/-- The native calls of a transaction, and what they return. -/
def natives (self : AggregatorData) : List Native → VmResult (List (Option ℕ) × AggregatorData)
  | [] => .ok ([], self)
  | call :: calls => do
      let (out, data) ← native bcs resolver limit self call
      let (outs, last) ← natives data calls
      return (out :: outs, last)

end Natives

end MoveTutorial.Executor
