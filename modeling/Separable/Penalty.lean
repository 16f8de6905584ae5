import Separable.Term

/-!
# Penalties

A constraint asks that a term be at most zero. Its penalty, for a multiplier `dual` and a penalty
parameter `mu`, is a smooth function of the term's value `t`: where the constraint is *active*,
that is where `-t - dual / mu` is at most zero, it is `dual t + (mu / 2) t²`, and elsewhere it is
the constant `-dual² / (2 mu)` at which the first branch ends.

`Term.penalized` is the penalty as a term in its own right. It has a gradient, the wrapped term's
gradient scaled by `dual + mu t`, and no Hessian.

A `Summand` of a graph is a plain term, or the penalty of a constraint whose multiplier is looked
up when the graph is evaluated; `Multipliers` is what it is looked up in.

## Main results

* `penalized_arity`, `penalized_dimensions`: a penalty takes the arguments of its term.
-/

namespace Separable

open Scalar

variable {α : Type} [Scalar α]

namespace Penalty

/-- Whether a constraint with value `t` contributes to the penalty. -/
def isActive (dual mu t : α) : Except Fault Bool :=
  (divide dual mu).map fun threshold => le (-t - threshold) 0

/-- The penalty of an active constraint with value `t`. -/
def activeValue (dual mu t : α) : α := dual * t + ((mu / 2.0) * t) * t

/-- The penalty of a constraint that is not active. -/
def inactiveValue (dual mu : α) : Except Fault α :=
  (power dual 2.0).bind fun square => divide (-square) (2.0 * mu)

/-- The factor between the gradient of an active constraint and that of its penalty. -/
def activeSlope (dual mu t : α) : α := dual + mu * t

/-- The penalty of a constraint with value `t`. -/
def value (dual mu t : α) : Except Fault α :=
  (isActive dual mu t).bind fun active =>
    if active then .ok (activeValue dual mu t) else inactiveValue dual mu

/-- The gradient buffers of the penalty, from those of the constraint. -/
def gradient (dual mu : α) (rows : Rows α) : Except Fault α → Rows α × Except Fault α
  | .error fault => (rows, .error fault)
  | .ok t =>
    match isActive dual mu t with
    | .error fault => (rows, .error fault)
    | .ok true =>
      (mapRows (fun _ _ g => g * activeSlope dual mu t) rows, .ok (activeValue dual mu t))
    | .ok false => (mapRows (fun _ _ _ => 0) rows, inactiveValue dual mu)

@[simp] theorem rowLengths_gradient (dual mu : α) (rows : Rows α) (t : Except Fault α) :
    rowLengths (gradient dual mu rows t).1 = rowLengths rows := by
  unfold gradient
  split
  · rfl
  · split <;> simp

/-- The Hessian of a penalty, which has none. -/
def hessian (_args : List (List α)) (rows : Rows α) (grid : Grid α) :
    (Rows α × Grid α) × Except Fault α :=
  ((rows, grid), .error .penaltyHessian)

omit [Scalar α] in
theorem rowLengths_hessian (args : List (List α)) (rows : Rows α) (grid : Grid α) :
    rowLengths (hessian args rows grid).1.1 = rowLengths rows := rfl

omit [Scalar α] in
theorem gridLengths_hessian (args : List (List α)) (rows : Rows α) (grid : Grid α) :
    gridLengths (hessian args rows grid).1.2 = gridLengths grid := rfl

end Penalty

namespace Term

/-- The penalty of the constraint that `t` be at most zero. -/
def penalized (t : Term α) (dual mu : α) : Term α where
  name := "PenaltyTerm"
  dimensions := t.dimensions
  value := fun args => (t.value args).bind (Penalty.value dual mu)
  gradient := fun args rows =>
    Penalty.gradient dual mu (t.gradient args rows).1 (t.gradient args rows).2
  hessian := Penalty.hessian
  gradient_rows := by simp [t.gradient_rows]
  hessian_rows := Penalty.rowLengths_hessian
  hessian_grid := Penalty.gridLengths_hessian

@[simp] theorem penalized_dimensions (t : Term α) (dual mu : α) :
    (t.penalized dual mu).dimensions = t.dimensions := rfl

@[simp] theorem penalized_arity (t : Term α) (dual mu : α) :
    (t.penalized dual mu).arity = t.arity := rfl

end Term

/-- The penalty parameter, and the multiplier of each constraint. -/
structure Multipliers (α : Type) where
  mu : α
  duals : List α

namespace Multipliers

/-- The multipliers of no constraints. -/
def none : Multipliers α := ⟨10.0, []⟩

/-- The multiplier of a constraint. -/
def dual (m : Multipliers α) (constraint : Nat) : α := m.duals.getD constraint 0

end Multipliers

/-- What a graph adds up: a term, or the penalty of one of the constraints. -/
inductive Summand (α : Type) where
  | plain (term : Term α)
  | penalty (constraint : Nat) (term : Term α)

namespace Summand

/-- The term that a summand stands for. -/
def resolve (m : Multipliers α) : Summand α → Term α
  | plain t => t
  | penalty constraint t => t.penalized (m.dual constraint) m.mu

/-- The name that messages use. -/
def name : Summand α → String
  | plain t => t.name
  | penalty _ _ => "PenaltyTerm"

/-- The dimension of each argument. -/
def dimensions : Summand α → List Int
  | plain t => t.dimensions
  | penalty _ t => t.dimensions

@[simp] theorem dimensions_resolve (m : Multipliers α) (s : Summand α) :
    (s.resolve m).dimensions = s.dimensions := by
  cases s <;> rfl

@[simp] theorem name_resolve (m : Multipliers α) (s : Summand α) :
    (s.resolve m).name = s.name := by
  cases s <;> rfl

end Summand

end Separable
