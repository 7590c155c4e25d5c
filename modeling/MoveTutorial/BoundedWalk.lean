import Mathlib

/-! Walks between two bounds. A walk is the list of its steps. Whether all of its positions lie between
two bounds depends only on its start and on the highest and the lowest point it reaches from there, and
these two points of a walk in two parts come from those of the parts. -/

namespace MoveTutorial.BoundedWalk

variable {G : Type} [AddCommGroup G] [LinearOrder G]

/-- The highest point of a walk from zero. -/
def top : List G → G
  | [] => 0
  | step :: steps => max 0 (step + top steps)

/-- The lowest point of a walk from zero. -/
def bottom : List G → G
  | [] => 0
  | step :: steps => min 0 (step + bottom steps)

/-- Every position of the walk from `start`, the first and the last included, is between the bounds. -/
def Within (lo hi start : G) : List G → Prop
  | [] => lo ≤ start ∧ start ≤ hi
  | step :: steps => (lo ≤ start ∧ start ≤ hi) ∧ Within lo hi (start + step) steps

theorem top_nonneg (steps : List G) : 0 ≤ top steps := by
  cases steps with
  | nil => exact le_rfl
  | cons step steps => exact le_max_left _ _

theorem bottom_nonpos (steps : List G) : bottom steps ≤ 0 := by
  cases steps with
  | nil => exact le_rfl
  | cons step steps => exact min_le_left _ _

theorem Within.start {lo hi start : G} {steps : List G} (h : Within lo hi start steps) :
    lo ≤ start ∧ start ≤ hi := by
  cases steps with
  | nil => exact h
  | cons step steps => exact h.1

variable [IsOrderedAddMonoid G]

theorem sum_le_top (steps : List G) : steps.sum ≤ top steps := by
  induction steps with
  | nil => exact le_rfl
  | cons step steps ih =>
      rw [List.sum_cons, top]
      exact (add_le_add_right ih step).trans (le_max_right _ _)

theorem bottom_le_sum (steps : List G) : bottom steps ≤ steps.sum := by
  induction steps with
  | nil => exact le_rfl
  | cons step steps ih =>
      rw [List.sum_cons, bottom]
      exact (min_le_right _ _).trans (add_le_add_right ih step)

theorem top_append (steps later : List G) : top (steps ++ later) = max (top steps) (steps.sum + top later) := by
  induction steps with
  | nil => rw [List.nil_append, top, List.sum_nil, zero_add, max_eq_right (top_nonneg later)]
  | cons step steps ih =>
      rw [List.cons_append, top, ih, top, List.sum_cons, add_assoc, max_assoc, max_add_add_left]

theorem bottom_append (steps later : List G) :
    bottom (steps ++ later) = min (bottom steps) (steps.sum + bottom later) := by
  induction steps with
  | nil => rw [List.nil_append, bottom, List.sum_nil, zero_add, min_eq_right (bottom_nonpos later)]
  | cons step steps ih =>
      rw [List.cons_append, bottom, ih, bottom, List.sum_cons, add_assoc, min_assoc, min_add_add_left]

theorem top_concat (steps : List G) (step : G) : top (steps ++ [step]) = max (top steps) (steps.sum + step) := by
  have hstep : steps.sum + top [step] = max steps.sum (steps.sum + step) := by
    rw [top, top, add_zero, ← max_add_add_left, add_zero]
  rw [top_append, hstep, ← max_assoc, max_eq_left (sum_le_top steps)]

theorem bottom_concat (steps : List G) (step : G) :
    bottom (steps ++ [step]) = min (bottom steps) (steps.sum + step) := by
  have hstep : steps.sum + bottom [step] = min steps.sum (steps.sum + step) := by
    rw [bottom, bottom, add_zero, ← min_add_add_left, add_zero]
  rw [bottom_append, hstep, ← min_assoc, min_eq_left (bottom_le_sum steps)]

/-- **The extremes decide.** -/
theorem within_iff {lo hi start : G} {steps : List G} :
    Within lo hi start steps ↔ lo ≤ start + bottom steps ∧ start + top steps ≤ hi := by
  induction steps generalizing start with
  | nil => rw [Within, bottom, top, add_zero]
  | cons step steps ih =>
      rw [Within, ih, bottom, top, ← min_add_add_left, ← max_add_add_left, le_min_iff, max_le_iff, add_zero,
        add_assoc, add_assoc]
      exact and_and_and_comm

/-- A walk in two parts. -/
theorem within_append {lo hi start : G} {steps later : List G} :
    Within lo hi start (steps ++ later) ↔
      Within lo hi start steps ∧ Within lo hi (start + steps.sum) later := by
  rw [within_iff, within_iff, within_iff, top_append, bottom_append, ← min_add_add_left, ← max_add_add_left,
    le_min_iff, max_le_iff, add_assoc, add_assoc]
  exact and_and_and_comm

theorem Within.finish {lo hi start : G} {steps : List G} (h : Within lo hi start steps) :
    lo ≤ start + steps.sum ∧ start + steps.sum ≤ hi := by
  have hsplit : Within lo hi start (steps ++ []) := by rwa [List.append_nil]
  exact (within_append.mp hsplit).2

/-- One more step. -/
theorem within_concat {lo hi start : G} {steps : List G} {step : G} (h : Within lo hi start steps) :
    Within lo hi start (steps ++ [step]) ↔ lo ≤ start + steps.sum + step ∧ start + steps.sum + step ≤ hi := by
  rw [within_append]
  exact ⟨fun hboth => hboth.2.2, fun hstep => ⟨h, h.finish, hstep⟩⟩

/-- Every sum and every two extremes around it and around zero are those of some walk. -/
theorem exists_walk {net hi lo : G} (hhi : 0 ≤ hi) (hlo : lo ≤ 0) (hnet : net ≤ hi) (hnet' : lo ≤ net) :
    ∃ steps, steps.sum = net ∧ top steps = hi ∧ bottom steps = lo := by
  refine ⟨[hi, lo - hi, net - lo], ?_, ?_, ?_⟩
  · rw [List.sum_cons, List.sum_cons, List.sum_cons, List.sum_nil]
    abel
  · have hlast : max 0 (net - lo + 0) = net - lo := by rw [add_zero, max_eq_right (sub_nonneg.mpr hnet')]
    have hmiddle : lo - hi + (net - lo) ≤ 0 := by
      rw [show lo - hi + (net - lo) = net - hi by abel]
      exact sub_nonpos.mpr hnet
    rw [top, top, top, top, hlast, max_eq_left hmiddle, add_zero, max_eq_right hhi]
  · have hlast : min 0 (net - lo + 0) = 0 := by rw [add_zero, min_eq_left (sub_nonneg.mpr hnet')]
    have hmiddle : lo - hi + 0 ≤ 0 := by
      rw [add_zero]
      exact sub_nonpos.mpr (hlo.trans hhi)
    rw [bottom, bottom, bottom, bottom, hlast, min_eq_right hmiddle, add_zero, add_sub_cancel, min_eq_right hlo]

end MoveTutorial.BoundedWalk
