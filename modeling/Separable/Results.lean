/-!
# Solver results

A solve that does not converge is no failure: the solver says in its results how it ended. Results
start out as `Results.fresh`, and a solver fills them in as it goes.
-/

namespace Separable

/-- How a solve ended. -/
inductive ExitCondition where
  /-- The objective stopped improving. -/
  | functionTolerance
  /-- The point is stationary. -/
  | gradientTolerance
  /-- The allowed iterations ran out. -/
  | noConvergence
  | internalError
  /-- A solver's own verdict. -/
  | other (label : String)
  deriving DecidableEq, Repr

namespace ExitCondition

/-- The word for an exit condition. -/
def label : ExitCondition → String
  | functionTolerance => "function_tolerance"
  | gradientTolerance => "gradient_tolerance"
  | noConvergence => "no_convergence"
  | internalError => "internal_error"
  | other label => label

/-- The exit condition with this word. -/
def ofLabel : String → ExitCondition
  | "function_tolerance" => functionTolerance
  | "gradient_tolerance" => gradientTolerance
  | "no_convergence" => noConvergence
  | "internal_error" => internalError
  | label => other label

end ExitCondition

/-- The outcome of a solve. -/
structure Results (α : Type) where
  exit : ExitCondition
  iterations : Int
  /-- The number of times the objective was evaluated. -/
  evaluations : Int
  /-- The last value of the objective, if there is one. -/
  value : Option α
  message : String

/-- The results of a solve that has not begun. -/
def Results.fresh {α : Type} : Results α := ⟨.internalError, 0, 0, none, ""⟩

end Separable
