import Separable.Problem
import Separable.Program

/-!
# The outer loop

A constrained problem is solved in rounds. A round lets a solver minimize the combined graph for the
multipliers and the penalty parameter in force, observes the objective and the constraints at the
point that was reached, and then either stops, or moves the multipliers (if the violation is
small enough), or raises the penalty parameter (if it is not).

The loop stops when the objective no longer improves, when the multipliers no longer move and the
violation is negligible, or when the allowed rounds are used up.

Everything that a round changes before a fault stays changed; `Run` is what it changes.

The lines that the loop hands to a solver are recorded, and recording a line cannot fail. A sink of
a solver that lets a failure of its own through would end the loop in the middle of a round, with
the multipliers perhaps moved already; such a sink is left out, and what is proved of a solve is
proved for sinks that take every line.
-/

namespace Separable

open Scalar

variable {α σ : Type}

/-- A solve in progress. -/
structure Run (α σ : Type) where
  problem : Problem α
  memory : Memory α
  /-- The inner state of the solver. -/
  solver : σ
  results : Results α

variable [Backend α]

namespace Constraint

/-- The multiplier after an update: `dual + mu * value`, or zero where the constraint is slack. -/
def movedDual (mu : α) (c : Constraint α) : Except Fault α :=
  (divide c.dual mu).map fun threshold =>
    if le (c.value + threshold) 0 then 0 else c.dual + mu * c.value

/-- Updates the multipliers of some constraints, up to the first that fails. -/
def moveDuals (mu : α) : List (Constraint α) → List (Constraint α) × Except Fault Unit
  | [] => ([], .ok ())
  | c :: rest =>
    match c.movedDual mu with
    | .error fault => (c :: rest, .error fault)
    | .ok dual =>
      let (rest, outcome) := moveDuals mu rest
      ({ c with dual := dual } :: rest, outcome)

/-- The number of multipliers that the log lists. -/
def listedDuals : Nat := 10

/-- The log lines for the multipliers that are not zero. -/
def dualEvents (constraints : List (Constraint α)) : List (Event α) :=
  let nonzero := constraints.filter fun c => !eq c.dual 0
  let lines := (nonzero.take listedDuals).map fun c =>
    Event.multiplier c.name c.dual (if lt 0 c.value then some c.value else none)
  if listedDuals < nonzero.length then lines ++ [.multipliersOmitted] else lines

end Constraint

namespace Run

/-- Works on the problem. -/
def onProblem {β : Type} : Action (Problem α) α β → Action (Run α σ) α β :=
  Action.within Run.problem fun r p => { r with problem := p }

/-- Changes the state of the outer loop. -/
def modifyOuter (f : OuterState α → OuterState α) : Action (Run α σ) α Unit :=
  Action.modify fun r => { r with problem := { r.problem with outer := f r.problem.outer } }

/-- Changes the results. -/
def modifyResults (f : Results α → Results α) : Action (Run α σ) α Unit :=
  Action.modify fun r => { r with results := f r.results }

/-- Writes a log line where the settings and the solver want it. The sink of a solver takes every
line. -/
def say (s : Solver α σ) (event : Event α) : Action (Run α σ) α Unit := fun r =>
  let info := if r.problem.config.verbose then [⟨.info, event⟩] else []
  let sink := if s.takesLines then [⟨.sink, event⟩] else []
  ⟨r, info ++ sink, .ok ()⟩

/-! ## One round -/

/-- Lets the solver minimize the combined graph. -/
def minimize (s : Solver α σ) : Action (Run α σ) α (Results α) := fun r =>
  let (view, log, solver, results, outcome) :=
    (s.solve r.solver Results.fresh).run r.problem.multipliers ⟨r.problem.combined, r.memory⟩
  ⟨{ r with
      problem := { r.problem with combined := view.graph }
      memory := view.memory
      solver := solver }, log, outcome.map fun () => results⟩

/-- Evaluates the objective at the caller's storage. -/
def objectiveValue : Action (Run α σ) α α := fun r =>
  onProblem (Problem.onObjective (Graph.valueAtStorage Multipliers.none r.memory)) r

/-- Evaluates the constraints at the caller's storage. -/
def constraintValues : Action (Run α σ) α (List α) := fun r =>
  onProblem (Problem.onConstraints (Constraint.evaluateAll r.memory)) r

/-- The largest violation; zero if there is none. -/
def largestViolation (values : List α) : α := values.foldl larger 0

/-- Whether the objective has stopped improving: `|f - previous| / (|f| + tolerance)` is below the
tolerance. Without a previous value it has not, but the quotient has to exist all the same. -/
def isStalled (tolerance f : α) : Option α → Except Fault Bool
  | none => (divide 0 (magnitude f + tolerance)).map fun _ => false
  | some previous =>
    (divide (magnitude (f - previous)) (magnitude f + tolerance)).map fun improvement =>
      lt improvement tolerance

/-- The violation below which a point can be a solution. -/
def negligibleViolation : α := 1e-8

/-- The exponent with which the accepted violation shrinks after an update of the multipliers. -/
def shrinkExponent : α := 0.9

/-- The factor by which the penalty parameter grows. -/
def penaltyFactor : α := 100.0

/-- Updates the multipliers; whether they have come to rest at a negligible violation. -/
def moveMultipliers (s : Solver α σ) (violation : α) : Action (Run α σ) α Bool := do
  let before := (← Action.get).problem
  onProblem (Problem.onConstraints (Action.run (Constraint.moveDuals before.outer.mu)))
  let after := (← Action.get).problem
  let change := (before.constraints.zipWith (fun c d => magnitude (c.dual - d.dual))
    after.constraints).foldl larger 0
  let size := (after.constraints.map fun c => magnitude c.dual).foldl larger 0
  Action.emit .debug (.multipliersMoved change)
  say s (.updatingMultipliers change)
  let tolerance := before.config.dualTolerance
  let relative ← Action.ofExcept (divide change (size + tolerance))
  if lt relative tolerance && lt violation negligibleViolation then return true
  let shrink ← Action.ofExcept (power before.outer.mu shrinkExponent)
  let nu ← Action.ofExcept (divide before.outer.nu shrink)
  modifyOuter fun o => { o with nu := nu }
  return false

/-- Raises the penalty parameter. -/
def raisePenalty (s : Solver α σ) : Action (Run α σ) α Unit := do
  modifyOuter fun o => { o with mu := o.mu * penaltyFactor }
  let mu := (← Action.get).problem.outer.mu
  let nu ← Action.ofExcept (power mu violationExponent)
  modifyOuter fun o => { o with nu := nu }
  Action.emit .debug (.penaltyGrown mu)
  say s .updatingPenalty

/-- Writes the log lines for the multipliers. -/
def listMultipliers (s : Solver α σ) : Action (Run α σ) α Unit := do
  let constraints := (← Action.get).problem.constraints
  (Constraint.dualEvents constraints).forM (say s)

/-- One round. It ends with the reason for which the loop stops, if it stops. -/
def round (s : Solver α σ) : Action (Run α σ) α (Option ExitCondition) := do
  let inner ← minimize s
  let f ← objectiveValue
  let iterations := (← Action.get).problem.outer.iterations
  modifyResults fun r => { r with iterations := iterations + 1 }
  let values ← constraintValues
  let p := (← Action.get).problem
  let violation := largestViolation values
  say s (.observed p.outer.mu p.outer.nu f
    (values.zipWith (fun value (c : Constraint α) => value * c.dual) p.constraints)
    violation inner.exit)
  modifyResults fun r =>
    { r with value := some f, evaluations := r.evaluations + inner.evaluations }
  let stalled ← Action.ofExcept (isStalled p.config.improvementTolerance f p.outer.previous)
  if stalled then return some .functionTolerance
  if le violation p.outer.nu then
    if ← moveMultipliers s violation then return some .gradientTolerance
  else raisePenalty s
  listMultipliers s
  modifyOuter fun o => { o with previous := some f, iterations := o.iterations + 1 }
  return none

/-! ## The loop -/

/-- Rounds until the loop stops; after the next one, `left` more are allowed. -/
def rounds (s : Solver α σ) : (left : Nat) → Action (Run α σ) α ExitCondition
  | 0 => do
    match ← round s with
    | some exit => return exit
    | none => return .noConvergence
  | left + 1 => do
    match ← round s with
    | some exit => return exit
    | none => rounds s left

/-- Puts the outer state and the multipliers back to where they start. -/
def reset : Action (Run α σ) α Unit := do
  modifyOuter fun o => { o with mu := initialPenalty }
  let nu ← Action.ofExcept (power (initialPenalty : α) violationExponent)
  modifyOuter fun o => { o with nu := nu, iterations := 0, previous := none }
  onProblem (Problem.onConstraints (Action.modify fun cs => cs.map fun c => { c with dual := 0 }))

/-- Solves the problem. A problem without variables is solved as it stands. -/
def solve (s : Solver α σ) : Action (Run α σ) α Unit := do
  modifyResults fun r => { r with exit := .internalError }
  let p := (← Action.get).problem
  if p.combined.registry.slots.isEmpty then
    modifyResults fun r => { r with exit := .functionTolerance }
  else
    reset
    let exit ← rounds s (p.config.maxIterations.toNat - 1)
    modifyResults fun r => { r with exit := exit }

end Run

end Separable
