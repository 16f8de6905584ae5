import Separable.Proofs.Exact
import Separable.Problem.OuterLoop

/-!
# Multipliers and penalties over the real numbers

The penalty of a constraint and the update of its multiplier are two case splits that were written
apart. The penalty is active where `-t - dual / mu ≤ 0`; the update gives zero where
`t + dual / mu ≤ 0`. Over the real numbers with `0 < mu` both are about one number, the updated
multiplier `Constraint.moved`: it is the factor between the gradient of the constraint and that of
its penalty, also where the two splits meet.

## Main results

* `movedDual_real`, `moveDuals_real`: the update is `moved`, and never fails.
* `moved_eq_max`: the update without a case split.
* `moved_nonneg`, `nonpos_of_moved_eq_zero`, `abs_of_moved_pos`: what the update tells of the value.
* `Penalty.result_gradient`: a penalty has one value, with its gradient and without.
* `value_real`, `phi_nonpos`: the penalty is `phi`, which is not positive where a constraint is met.
* `gradient_penalized`: the gradient of a penalty is the constraint's, times the updated multiplier.
-/

namespace Separable

open Scalar

namespace Constraint

/-- The multiplier after an update at the value `t`. -/
noncomputable def moved (mu dual t : ℝ) : ℝ := if t + dual / mu ≤ 0 then 0 else dual + mu * t

variable {mu : ℝ}

theorem movedDual_real (hmu : 0 < mu) (c : Constraint ℝ) :
    c.movedDual mu = .ok (moved mu c.dual c.value) := by
  rw [movedDual, divide_real hmu.ne']
  show Except.ok (if le (c.value + c.dual / mu) 0 = true then (0 : ℝ) else c.dual + mu * c.value) = _
  simp only [le_real]
  rfl

theorem moveDuals_real (hmu : 0 < mu) (constraints : List (Constraint ℝ)) :
    moveDuals mu constraints =
      (constraints.map fun c => { c with dual := moved mu c.dual c.value }, .ok ()) := by
  induction constraints with
  | nil => rfl
  | cons c rest ih => rw [moveDuals, movedDual_real hmu, ih]; rfl

theorem add_mul_eq (hmu : 0 < mu) (dual t : ℝ) : dual + mu * t = mu * (t + dual / mu) := by
  field_simp
  ring

/-- A constraint that is not slack has a positive multiplier after the update. -/
theorem moved_pos (hmu : 0 < mu) {dual t : ℝ} (h : ¬t + dual / mu ≤ 0) : 0 < dual + mu * t := by
  rw [add_mul_eq hmu]
  exact mul_pos hmu (not_le.1 h)

theorem moved_eq_max (hmu : 0 < mu) (dual t : ℝ) : moved mu dual t = max 0 (dual + mu * t) := by
  unfold moved
  rw [add_mul_eq hmu]
  by_cases hslack : t + dual / mu ≤ 0
  · rw [if_pos hslack, max_eq_left (mul_nonpos_of_nonneg_of_nonpos hmu.le hslack)]
  · rw [if_neg hslack, max_eq_right (mul_pos hmu (not_le.1 hslack)).le]

theorem moved_nonneg (hmu : 0 < mu) (dual t : ℝ) : 0 ≤ moved mu dual t := by
  unfold moved
  split
  · exact le_refl 0
  · next h => exact (moved_pos hmu h).le

/-- The value of a constraint whose multiplier was set to zero is not positive. -/
theorem nonpos_of_moved_eq_zero (hmu : 0 < mu) {dual t : ℝ} (hdual : 0 ≤ dual)
    (h : moved mu dual t = 0) : t ≤ 0 := by
  unfold moved at h
  split at h
  · next hslack =>
    have hshift : 0 ≤ dual / mu := div_nonneg hdual hmu.le
    linarith
  · next hactive => exact absurd h (moved_pos hmu hactive).ne'

/-- The value of a constraint whose multiplier is positive is told by how far it has moved. -/
theorem abs_of_moved_pos (hmu : 0 < mu) {dual t : ℝ} (h : 0 < moved mu dual t) :
    |t| = |dual - moved mu dual t| / mu := by
  unfold moved at h ⊢
  split at h
  · exact absurd h (lt_irrefl 0)
  · next hactive =>
    have hdiff : dual - (dual + mu * t) = -(mu * t) := by ring
    rw [if_neg hactive, hdiff, abs_neg, abs_mul, abs_of_pos hmu, mul_div_cancel_left₀ _ hmu.ne']

end Constraint

/-! ## The penalty -/

namespace Penalty

/-- The penalty comes with its gradient as it comes without. -/
theorem result_gradient {α : Type} [Backend α] {dual mu : α} (rows : Rows α) (t : Except Fault α) :
    (gradient dual mu rows t).2 = t.bind (value dual mu) := by
  cases t with
  | error fault => rfl
  | ok t =>
      simp only [gradient, value, Except.bind]
      rcases isActive dual mu t with fault | _ | _ <;> rfl

variable {mu : ℝ}

theorem isActive_real (hmu : 0 < mu) (dual t : ℝ) :
    isActive dual mu t = .ok (decide (-t - dual / mu ≤ 0)) := by
  rw [isActive, divide_real hmu.ne']
  rfl

theorem inactiveValue_real (hmu : 0 < mu) (dual : ℝ) :
    inactiveValue dual mu = .ok (-dual ^ 2 / (2 * mu)) := by
  have htwo : (2.0 : ℝ) * mu ≠ 0 := mul_ne_zero (by norm_num) hmu.ne'
  have hsquare : Real.rpow dual 2.0 = dual ^ 2 := by
    rw [show (2.0 : ℝ) = ((2 : ℕ) : ℝ) by norm_num]
    exact Real.rpow_natCast dual 2
  show divide (-Real.rpow dual 2.0) (2.0 * mu) = _
  rw [divide_real htwo, hsquare, show (2.0 : ℝ) = 2 by norm_num]

/-- The penalty of a constraint with value `t`. -/
noncomputable def phi (mu dual t : ℝ) : ℝ :=
  if -t - dual / mu ≤ 0 then dual * t + mu / 2 * t ^ 2 else -dual ^ 2 / (2 * mu)

theorem value_real (hmu : 0 < mu) (dual t : ℝ) : value dual mu t = .ok (phi mu dual t) := by
  have hactiveValue : activeValue dual mu t = dual * t + mu / 2 * t ^ 2 := by
    rw [activeValue, show (2.0 : ℝ) = 2 by norm_num]
    ring
  simp only [value, isActive_real hmu, Except.bind, decide_eq_true_eq, inactiveValue_real hmu,
    hactiveValue, phi]
  split <;> rfl

/-- The penalty of a constraint that is met is not positive, unless its multiplier is negative. -/
theorem phi_nonpos (hmu : 0 < mu) {dual t : ℝ} (hdual : 0 ≤ dual) (ht : t ≤ 0) :
    phi mu dual t ≤ 0 := by
  unfold phi
  split
  · next hactive =>
    have hslope : 0 ≤ dual + mu * t := by
      rw [Constraint.add_mul_eq hmu]
      exact mul_nonneg hmu.le (by linarith)
    have hhalf : 0 ≤ dual + mu / 2 * t := by linarith
    calc dual * t + mu / 2 * t ^ 2 = t * (dual + mu / 2 * t) := by ring
      _ ≤ 0 := mul_nonpos_of_nonpos_of_nonneg ht hhalf
  · exact div_nonpos_of_nonpos_of_nonneg (neg_nonpos.2 (sq_nonneg dual)) (by linarith)

/-- The two case splits agree: the slope of an active penalty is the updated multiplier, and so is
the zero of an inactive one. -/
theorem moved_eq (hmu : 0 < mu) (dual t : ℝ) :
    Constraint.moved mu dual t = if -t - dual / mu ≤ 0 then activeSlope dual mu t else 0 := by
  unfold Constraint.moved
  by_cases hslack : t + dual / mu ≤ 0
  · rw [if_pos hslack]
    by_cases hactive : -t - dual / mu ≤ 0
    · -- Here the splits meet, and the slope is zero.
      have hzero : t + dual / mu = 0 := by linarith
      rw [if_pos hactive]
      show 0 = dual + mu * t
      rw [Constraint.add_mul_eq hmu, hzero, mul_zero]
    · rw [if_neg hactive]
  · have hactive : -t - dual / mu ≤ 0 := by linarith
    rw [if_neg hslack, if_pos hactive]
    rfl

/-- The gradient of a penalty is the gradient of the constraint, times the updated multiplier. -/
theorem gradient_penalized (hmu : 0 < mu) (term : Term ℝ) (dual : ℝ) {args : List (List ℝ)}
    {rows slopes : Rows ℝ} {t : ℝ} (h : term.gradient args rows = (slopes, .ok t)) :
    ∃ value, (term.penalized dual mu).gradient args rows =
      (mapRows (fun _ _ g => g * Constraint.moved mu dual t) slopes, .ok value) := by
  show ∃ value, gradient dual mu (term.gradient args rows).1 (term.gradient args rows).2 = _
  rw [h]
  simp only [gradient, isActive_real hmu, moved_eq hmu]
  by_cases hactive : -t - dual / mu ≤ 0
  · exact ⟨activeValue dual mu t, by simp only [hactive, decide_true, if_true]⟩
  · refine ⟨-dual ^ 2 / (2 * mu), ?_⟩
    simp only [hactive, decide_false, if_false, inactiveValue_real hmu, mul_zero]

end Penalty

end Separable
