import Separable.Evaluation

/-!
# Constrained problems

A problem asks to minimize an objective subject to constraints, each of them a term that has to be
at most zero. It is kept as several graphs over the same storage: the objective, one graph for
each constraint, and the *combined* graph, which holds the terms of the objective and one penalty
per constraint. The combined graph is what a solver of unconstrained problems is given.

The outer state is the penalty parameter `mu`, the violation `nu` up to which multipliers are
updated, the number of outer iterations and the last objective value.

Variables and terms go to the objective and to the combined graph, in this order; a fault in the
second leaves the first as it is then.
-/

namespace Separable

open Scalar

/-- The settings of the outer loop. -/
structure Config (α : Type) where
  maxIterations : Int
  /-- The relative improvement of the objective below which the loop stops. -/
  improvementTolerance : α
  /-- The relative change of the multipliers below which the loop stops. -/
  dualTolerance : α
  verbose : Bool

/-- The state of the outer loop. -/
structure OuterState (α : Type) where
  /-- The penalty parameter. -/
  mu : α
  /-- The violation up to which multipliers are updated. -/
  nu : α
  iterations : Nat
  /-- The objective at the end of the last iteration, if there was one. -/
  previous : Option α

/-- The constraint that a function be at most zero. -/
structure Constraint (α : Type) where
  name : String
  graph : Graph α
  /-- The multiplier. -/
  dual : α
  /-- The value at the last evaluation. -/
  value : α

/-- A constrained problem. -/
structure Problem (α : Type) where
  config : Config α
  workers : Nat
  objective : Graph α
  combined : Graph α
  constraints : List (Constraint α)
  outer : OuterState α

variable {α : Type} [Backend α]

/-- The penalty parameter at the start of the outer loop. -/
def initialPenalty : α := 10.0

/-- The exponent with which the accepted violation falls as the penalty parameter grows. -/
def violationExponent : α := -0.1

/-- The settings unless others are given. -/
def Config.standard : Config α := ⟨100, 1e-12, 1e-8, false⟩

/-- The state before the first iteration. -/
def OuterState.fresh : OuterState α :=
  ⟨initialPenalty, Scalar.pow initialPenalty violationExponent, 0, none⟩

namespace Constraint

/-- Evaluates the constraint at the caller's storage and remembers the value. -/
def evaluate (memory : Memory α) : Action (Constraint α) α α := fun c =>
  let o := Graph.valueAtStorage Multipliers.none memory c.graph
  match o.result with
  | .error fault => ⟨{ c with graph := o.state }, o.log, .error fault⟩
  | .ok value => ⟨{ c with graph := o.state, value := value }, o.log, .ok value⟩

/-- Evaluates some constraints, up to the first that fails. -/
def evaluateAll (memory : Memory α) : Action (List (Constraint α)) α (List α)
  | [] => ⟨[], [], .ok []⟩
  | c :: rest =>
    match c.evaluate memory with
    | ⟨c, log, .error fault⟩ => ⟨c :: rest, log, .error fault⟩
    | ⟨c, log, .ok value⟩ =>
      let o := evaluateAll memory rest
      ⟨c :: o.state, log ++ o.log, o.result.map (value :: ·)⟩

/-- The graph of a constraint over some variables. -/
def graphOf (workers : Nat) (t : Term α) (vars : List (Variable α)) :
    Except Fault (Graph α) :=
  let build : Action (Graph α) α (Bound α) := do
    vars.forM fun v => do
      let _ ← Graph.addVariable v.storage (some v.userDimension) v.reparam
    Graph.addTerm (.plain t) (vars.map fun v => .storage v.storage)
  let o := build (Graph.empty false workers)
  o.result.map fun _ => o.state

end Constraint

namespace Problem

/-- A problem without variables. -/
def new (config : Config α) (workers : Int) : Except Fault (Problem α) :=
  (Graph.checkedWorkers workers).map fun workers =>
    ⟨config, workers, Graph.empty false workers, Graph.empty false workers, [], OuterState.fresh⟩

/-- The penalty parameter and the multipliers in force. -/
def multipliers (p : Problem α) : Multipliers α :=
  ⟨p.outer.mu, p.constraints.map (·.dual)⟩

/-- The constraint of this name. -/
def constraint? (p : Problem α) (name : String) : Option (Constraint α) :=
  p.constraints.find? fun c => c.name = name

/-- Works on the objective. -/
def onObjective {β : Type} : Action (Graph α) α β → Action (Problem α) α β :=
  Action.within Problem.objective fun p g => { p with objective := g }

/-- Works on the combined graph. -/
def onCombined {β : Type} : Action (Graph α) α β → Action (Problem α) α β :=
  Action.within Problem.combined fun p g => { p with combined := g }

/-- Works on the constraints. -/
def onConstraints {β : Type} : Action (List (Constraint α)) α β → Action (Problem α) α β :=
  Action.within Problem.constraints fun p cs => { p with constraints := cs }

/-- Works on the constraint of this name. -/
def onConstraint {β : Type} (name : String) (x : Action (Constraint α) α β) :
    Action (Problem α) α β := fun p =>
  match p.constraint? name with
  | none => Action.fail (.unknownName name) p
  | some c =>
    let o := x c
    ⟨{ p with constraints :=
        p.constraints.map fun d => if d.name = name then o.state else d }, o.log, o.result⟩

/-- Sets the multiplier of the constraint of this name. -/
def setDual (name : String) (dual : α) : Action (Problem α) α Unit :=
  onConstraint name (Action.modify fun c => { c with dual := dual })

/-- Sets the penalty parameter. -/
def setPenalty (mu : α) : Action (Problem α) α Unit :=
  Action.modify fun p => { p with outer := { p.outer with mu := mu } }

/-- Sets the penalty parameter, and then multipliers in order, up to one that is unusable or that
no constraint has. -/
def setMultipliers (mu : Option (Supplied α)) (duals : List (String × Supplied α)) :
    Action (Problem α) α Unit := do
  mu.forM fun mu => Action.bind (Action.ofExcept mu) setPenalty
  duals.forM fun (name, dual) => Action.bind (Action.ofExcept dual) (setDual name)

/-- Registers a storage as a variable. -/
def addVariable (s : Storage) (dimension : Option Int) (reparam : Option (Reparam α)) :
    Action (Problem α) α Nat := do
  let id ← onObjective (Graph.addVariable s dimension reparam)
  let _ ← onCombined (Graph.addVariable s dimension reparam)
  return id

/-- The variables of the objective that are meant. -/
def resolve (p : Problem α) (arguments : List Ref) : Except Fault (List (Variable α)) :=
  arguments.mapM p.objective.registry.resolve

/-- Adds a term to the objective. -/
def addTerm (t : Term α) (arguments : List Ref) : Action (Problem α) α Unit := do
  let vars ← Action.ofExcept ((← Action.get).resolve arguments)
  let storages := vars.map fun v => Ref.storage v.storage
  let _ ← onObjective (Graph.addTerm (.plain t) storages)
  let _ ← onCombined (Graph.addTerm (.plain t) storages)

/-- Adds the constraint that a term be at most zero. -/
def addConstraint (name : String) (t : Term α) (arguments : List Ref) :
    Action (Problem α) α (Constraint α) := do
  let p ← Action.get
  Action.require (p.constraint? name).isNone (.duplicateConstraint name)
  let vars ← Action.ofExcept (p.resolve arguments)
  let graph ← Action.ofExcept (Constraint.graphOf p.workers t vars)
  let _ ← onCombined (Graph.addTerm (.penalty p.constraints.length t)
    (vars.map fun v => .storage v.storage))
  let c : Constraint α := ⟨name, graph, 0, 0⟩
  Action.modify fun p => { p with constraints := p.constraints ++ [c] }
  return c

/-- The value up to which a constraint counts as satisfied. -/
def feasibilityThreshold : α := 1e-12

/-- Evaluates every constraint at the caller's storage; whether none of them is violated. -/
def isFeasible (memory : Memory α) : Action (Problem α) α Bool := do
  let values ← onConstraints (Constraint.evaluateAll memory)
  return values.all fun value => !lt feasibilityThreshold value

end Problem

end Separable
