import MoveTutorial.BoundedWalk
import MoveTutorial.Results

/-! Deltas of aggregators. A transaction that adds to a value it has not read records only what it added:
the sum, and how far the sum went up and down. The delta is applied to the value later, and two deltas
to the same value can be merged first.

Values are `u128`. Every sum is compared with the limit before it is formed, so that no addition
overflows and natural numbers carry the arithmetic. -/

namespace MoveTutorial.Executor

open Results

/-- The status codes of the errors below. -/
inductive StatusCode where
  | aborted
  | vmExtensionError
  | storageError
  deriving DecidableEq, Repr

/-- How a function of the executor fails: with an error of the VM, or with a panic. -/
inductive Failure where
  | vm (status : StatusCode) (message : Option String) (subStatus : Option ℕ)
  | panic
  deriving DecidableEq, Repr

abbrev VmResult (α : Type) := Except Failure α

/-- When `addition` overflows the limit. -/
def EADD_OVERFLOW : ℕ := 0x020001

/-- When `subtraction` goes below zero. -/
def ESUB_UNDERFLOW : ℕ := 0x020002

def abortError (message : String) (code : ℕ) : Failure := .vm .aborted (some message) (some code)

def addition (base value limit : ℕ) : VmResult ℕ :=
  if limit < base ∨ value > limit - base then
    .error (abortError s!"overflow when adding {value} to {base}" EADD_OVERFLOW)
  else .ok (base + value)

def subtraction (base value : ℕ) : VmResult ℕ :=
  if value > base then .error (abortError s!"underflow when subtracting {value} from {base}" ESUB_UNDERFLOW)
  else .ok (base - value)

inductive DeltaUpdate where
  | plus (value : ℕ)
  | minus (value : ℕ)
  deriving DecidableEq, Repr

structure DeltaOp where
  /-- maximum positive delta seen during execution -/
  maxPositive : ℕ
  /-- smallest negative delta seen during execution -/
  minNegative : ℕ
  /-- postcondition: the delta overflows on exceeding this limit or going below zero -/
  limit : ℕ
  /-- delta which is the result of the execution -/
  update : DeltaUpdate
  deriving DecidableEq, Repr

namespace DeltaOp

def applyTo (self : DeltaOp) (base : ℕ) : VmResult ℕ := do
  let _ ← addition base self.maxPositive self.limit
  let _ ← subtraction base self.minNegative
  match self.update with
  | .plus value => addition base value self.limit
  | .minus value => subtraction base value

/-- `subtraction(a, b).unwrap_or(0)`. -/
def subtractionOrZero (a b : ℕ) : ℕ :=
  match subtraction a b with
  | .ok value => value
  | .error _ => 0

def shiftedMaxPositiveBy (self delta : DeltaOp) : VmResult ℕ :=
  match delta.update with
  | .plus value => addition value self.maxPositive self.limit
  | .minus value => .ok (subtractionOrZero self.maxPositive value)

def shiftedMinNegativeBy (self delta : DeltaOp) : VmResult ℕ :=
  match delta.update with
  | .plus value => .ok (subtractionOrZero self.minNegative value)
  | .minus value => addition value self.minNegative self.limit

/-- The macro `update_different_sign`. -/
def updateDifferentSign (a b : ℕ) : VmResult DeltaUpdate :=
  if a ≥ b then (subtraction a b).map .plus else (subtraction b a).map .minus

/-- The match on the two updates in `merge_onto`. -/
def mergedUpdate (previousUpdate selfUpdate : DeltaUpdate) (limit : ℕ) : VmResult DeltaUpdate :=
  match previousUpdate, selfUpdate with
  | .plus prevValue, .plus selfValue => (addition prevValue selfValue limit).map .plus
  | .plus prevValue, .minus selfValue => updateDifferentSign prevValue selfValue
  | .minus prevValue, .plus selfValue => updateDifferentSign selfValue prevValue
  | .minus prevValue, .minus selfValue => (addition prevValue selfValue limit).map .minus

/-- Applies `self` on top of a previous delta. -/
def mergeOnto (self previousDelta : DeltaOp) : VmResult DeltaOp := do
  let shiftedMaxPositive ← self.shiftedMaxPositiveBy previousDelta
  let shiftedMinNegative ← self.shiftedMinNegativeBy previousDelta
  let update ← mergedUpdate previousDelta.update self.update self.limit
  return { self with
    update := update
    maxPositive := max previousDelta.maxPositive shiftedMaxPositive
    minNegative := max previousDelta.minNegative shiftedMinNegative }

end DeltaOp

/-! ### The checked operations -/

section Checked

variable {base value limit result a b : ℕ}

theorem addition_eq_ok : addition base value limit = .ok result ↔ base + value ≤ limit ∧ base + value = result := by
  unfold addition
  split
  · simp only [reduceCtorEq, false_iff]
    omega
  · simp only [Except.ok.injEq, iff_and_self]
    omega

theorem subtraction_eq_ok : subtraction base value = .ok result ↔ value ≤ base ∧ base - value = result := by
  unfold subtraction
  split
  · simp only [reduceCtorEq, false_iff]
    omega
  · simp only [Except.ok.injEq, iff_and_self]
    omega

theorem addition_ok (h : base + value ≤ limit) : addition base value limit = .ok (base + value) :=
  addition_eq_ok.mpr ⟨h, rfl⟩

theorem subtraction_ok (h : value ≤ base) : subtraction base value = .ok (base - value) :=
  subtraction_eq_ok.mpr ⟨h, rfl⟩

theorem subtractionOrZero_eq (a b : ℕ) : DeltaOp.subtractionOrZero a b = a - b := by
  rw [DeltaOp.subtractionOrZero]
  by_cases h : b ≤ a
  · rw [subtraction_ok h]
  · rw [subtraction, if_pos (by omega)]
    exact (Nat.sub_eq_zero_of_le (by omega)).symm

end Checked

end MoveTutorial.Executor
