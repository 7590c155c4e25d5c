import MoveTutorial.Results

/-! Executions of Move functions. A function either returns a value or aborts, and an abort undoes
every effect of the call. Unsigned integers are represented by their values; the arithmetic of
width `w` aborts on results that do not fit, so that no operation wraps around. -/

namespace MoveTutorial.Move

/-- Why an execution aborts. -/
inductive Abort where
  /-- `abort code`, or a failed `assert!` with that code -/
  | code (code : ℕ)
  /-- overflow, underflow, division by zero, a cast or a shift out of range -/
  | arithmetic
  /-- `borrow_global` or `move_from` of a resource that is not published -/
  | missingData
  /-- `move_to` of a resource that is already published -/
  | resourceExists
  /-- a native vector operation outside the vector, or the destruction of a vector with elements -/
  | vectorError
  deriving DecidableEq, Repr

/-- The result of a Move function: a value, or the reason of the abort. -/
abbrev Exec (α : Type) := Except Abort α

instance {α : Type} [DecidableEq α] : DecidableEq (Exec α)
  | .ok a, .ok b => decidable_of_iff (a = b) (by simp)
  | .error a, .error b => decidable_of_iff (a = b) (by simp)
  | .ok _, .error _ => isFalse (by simp)
  | .error _, .ok _ => isFalse (by simp)

/-- The call returns normally. -/
def Succeeds {α : Type} (x : Exec α) : Prop := ∃ a, x = .ok a

/-- The call aborts. -/
def Aborts {α : Type} (x : Exec α) : Prop := ∃ e, x = .error e

/-- A specification of the Move prover: the function aborts exactly under its `aborts_if`, and what it
returns otherwise satisfies its `ensures`. -/
structure Meets {α : Type} (x : Exec α) (abortsIf : Prop) (ensures : α → Prop) : Prop where
  aborts_iff : Aborts x ↔ abortsIf
  ensures : ∀ a, x = .ok a → ensures a

/-- `assert!(cond, code)`. -/
def assert (cond : Prop) [Decidable cond] (code : ℕ) : Exec Unit :=
  if cond then .ok () else .error (.code code)

/-- A result of width `w`. -/
def checked (w n : ℕ) : Exec ℕ := if n < 2 ^ w then .ok n else .error .arithmetic

def add (w a b : ℕ) : Exec ℕ := checked w (a + b)

def mul (w a b : ℕ) : Exec ℕ := checked w (a * b)

def sub (a b : ℕ) : Exec ℕ := if b ≤ a then .ok (a - b) else .error .arithmetic

def div (a b : ℕ) : Exec ℕ := if b = 0 then .error .arithmetic else .ok (a / b)

def mod (a b : ℕ) : Exec ℕ := if b = 0 then .error .arithmetic else .ok (a % b)

/-- `a << n`: the bits shifted out are lost, and a shift by the width or more aborts. -/
def shl (w a n : ℕ) : Exec ℕ := if n < w then .ok (a <<< n % 2 ^ w) else .error .arithmetic

/-! ### Inversion

Every equation `x = .ok a` for a composed execution comes apart into the equations of its parts. -/

section Inversion

export Results (bind_eq_ok pure_eq_ok ok_bind)

variable {α : Type}

theorem aborts_iff_not_succeeds {x : Exec α} : Aborts x ↔ ¬Succeeds x := by
  cases x with
  | ok a => exact ⟨nofun, fun h => absurd ⟨a, rfl⟩ h⟩
  | error e => exact ⟨fun _ => nofun, fun _ => ⟨e, rfl⟩⟩

theorem assert_eq_ok {cond : Prop} [Decidable cond] {code : ℕ} {u : Unit} :
    assert cond code = .ok u ↔ cond := by
  unfold assert
  split <;> simp_all

theorem assert_pos {cond : Prop} [Decidable cond] (code : ℕ) (h : cond) : assert cond code = .ok () :=
  if_pos h

theorem assert_neg {cond : Prop} [Decidable cond] (code : ℕ) (h : ¬cond) :
    assert cond code = .error (.code code) := if_neg h

theorem succeeds_assert_bind {cond : Prop} [Decidable cond] {code : ℕ} {f : Unit → Exec α} :
    Succeeds (assert cond code >>= f) ↔ cond ∧ Succeeds (f ()) := by
  by_cases h : cond
  · rw [assert_pos code h, ok_bind]
    exact ⟨fun hf => ⟨h, hf⟩, fun hf => hf.2⟩
  · rw [assert_neg code h]
    exact ⟨nofun, fun hf => absurd hf.1 h⟩

variable {w a b c n : ℕ}

theorem checked_eq_ok : checked w n = .ok c ↔ n < 2 ^ w ∧ n = c := by
  unfold checked
  split <;> simp_all

theorem add_eq_ok : add w a b = .ok c ↔ a + b < 2 ^ w ∧ a + b = c := checked_eq_ok

theorem mul_eq_ok : mul w a b = .ok c ↔ a * b < 2 ^ w ∧ a * b = c := checked_eq_ok

theorem sub_eq_ok : sub a b = .ok c ↔ b ≤ a ∧ a - b = c := by
  unfold sub
  split <;> simp_all

theorem div_eq_ok : div a b = .ok c ↔ 0 < b ∧ a / b = c := by
  unfold div
  split <;> simp_all [Nat.pos_iff_ne_zero]

theorem add_ok (h : a + b < 2 ^ w) : add w a b = .ok (a + b) := if_pos h

theorem mul_ok (h : a * b < 2 ^ w) : mul w a b = .ok (a * b) := if_pos h

theorem sub_ok (h : b ≤ a) : sub a b = .ok (a - b) := if_pos h

theorem div_ok (h : 0 < b) : div a b = .ok (a / b) := if_neg (by omega)

theorem mod_ok (h : 0 < b) : mod a b = .ok (a % b) := if_neg (by omega)

/-- The shift of `1` is the power of two, as long as it fits. -/
theorem shl_one (h : n < w) : shl w 1 n = .ok (2 ^ n) := by
  rw [shl, if_pos h, Nat.one_shiftLeft, Nat.mod_eq_of_lt (Nat.pow_lt_pow_right (by decide) h)]

end Inversion

/-! ### Reasons of an abort

The same for `x = .error e`: the first part that aborts gives the reason. -/

section Reasons

variable {α β : Type} {e : Abort}

theorem bind_eq_error {x : Exec α} {f : α → Exec β} :
    x >>= f = .error e ↔ x = .error e ∨ ∃ a, x = .ok a ∧ f a = .error e := by
  cases x with
  | error e' => simp [bind, Except.bind]
  | ok a => simp

theorem pure_ne_error {a : α} : (pure a : Exec α) ≠ .error e := nofun

theorem assert_eq_error {cond : Prop} [Decidable cond] {code : ℕ} :
    assert cond code = .error e ↔ ¬cond ∧ e = .code code := by
  unfold assert
  split <;> simp_all [eq_comm]

variable {w a b n : ℕ}

theorem checked_eq_error : checked w n = .error e ↔ 2 ^ w ≤ n ∧ e = .arithmetic := by
  unfold checked
  split
  · simp only [reduceCtorEq, false_iff]
    omega
  · simp only [Except.error.injEq, eq_comm, iff_and_self]
    omega

theorem add_eq_error : add w a b = .error e ↔ 2 ^ w ≤ a + b ∧ e = .arithmetic := checked_eq_error

theorem mul_eq_error : mul w a b = .error e ↔ 2 ^ w ≤ a * b ∧ e = .arithmetic := checked_eq_error

theorem div_eq_error : div a b = .error e ↔ b = 0 ∧ e = .arithmetic := by
  unfold div
  split <;> simp_all [eq_comm]

end Reasons

end MoveTutorial.Move
