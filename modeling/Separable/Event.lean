import Separable.Results

/-!
# Log lines

What the library reports while it works is data: an `Event` says what happened and with which
numbers, and a `Channel` says where the line goes. The wording is in `Separable.Event.Text`.
-/

namespace Separable

/-- Something that is worth a log line. -/
inductive Event (α : Type) where
  /-- Storage for evaluations was allocated. -/
  | allocated (workers terms vars scalars : Nat)
  /-- An outer iteration has observed the objective, the constraints (each value times its
  multiplier) and the largest violation. -/
  | observed (mu nu objective : α) (products : List α) (violation : α) (inner : ExitCondition)
  /-- The multipliers have moved by at most `change`. -/
  | multipliersMoved (change : α)
  /-- The multipliers are being updated; they move by at most `change`. -/
  | updatingMultipliers (change : α)
  /-- The penalty parameter has grown. -/
  | penaltyGrown (mu : α)
  /-- The penalty parameter is being updated. -/
  | updatingPenalty
  /-- A multiplier that is not zero, and the violation of its constraint if there is one. -/
  | multiplier (constraint : String) (dual : α) (violation : Option α)
  /-- More multipliers follow that are not listed. -/
  | multipliersOmitted
  /-- A minimizer has finished. -/
  | minimized (method message : String) (iterations : Int) (value : Option α)

/-- Where a log line goes. -/
inductive Channel where
  | info
  | debug
  /-- The line is handed to the solver. -/
  | sink
  deriving DecidableEq, Repr

/-- A log line. -/
structure Entry (α : Type) where
  channel : Channel
  event : Event α

end Separable
