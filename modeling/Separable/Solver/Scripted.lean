import Separable.Program

/-!
# Simple solvers

Two solvers whose inner state is the number of calls so far. `Solver.visiting` goes to the next
point of a list on each call. `Solver.descending` takes a fixed number of steps against the
gradient, with a step length that shrinks as the penalty parameter grows. What they are supplied
with is looked at when it is needed, so an unusable point or coefficient makes a call fail only if
the call comes to it.

A `Verdict` says what a simple solver reports about itself, and at which call it fails instead.
-/

namespace Separable

open Scalar

/-- What a simple solver reports. -/
structure Verdict where
  exit : ExitCondition
  evaluations : Int
  /-- The number of the call that fails; calls are counted from zero. -/
  failsAt : Option Int
  takesLines : Bool

/-- The results that a simple solver reports. -/
def Verdict.results {α : Type} (v : Verdict) (evaluations : Int) (r : Results α) : Results α :=
  { r with exit := v.exit, evaluations := evaluations }

/-- Whether the call of this number fails. -/
def Verdict.fails (v : Verdict) (call : Nat) : Bool := v.failsAt == some (call : Int)

/-- The failure of a call that fails on purpose. -/
def Verdict.failure : Fault := .reported .runtime "inner solver failed"

namespace Solver

variable {α : Type}

/-- The entry for a call; the last one for all later calls. -/
def entryFor {β : Type} (entries : List β) (call : Nat) : Except Fault β :=
  match entries[min call (entries.length - 1)]? with
  | none => .error .noEntry
  | some entry => .ok entry

variable [Backend α]

/-- Goes to the point for this call, or stays where it is. -/
def visiting (points : List (Supplied (Option (Tensor α)))) (v : Verdict) : Solver α Nat where
  takesLines := v.takesLines
  solve := fun call results =>
    if v.fails call then .done (call + 1, results, .error Verdict.failure)
    else
      let reported := v.results v.evaluations results
      match (entryFor points call).bind id with
      | .error fault => .done (call + 1, results, .error fault)
      | .ok none => .done (call + 1, reported, .ok ())
      | .ok (some x) => .ask (.store x) fun stored => .done (call + 1, reported, stored)

/-- The rate of a step against the gradient, `1 / (c + m mu)`. -/
def rate (c m : Supplied α) (mu : α) : Except Fault α := do
  divide 1 ((← c) + (← m) * mu)

/-- The point after some steps against the gradient. -/
def descent (c m : Supplied α) : (steps : Nat) → List α → Program α (Except Fault (List α))
  | 0, x => .done (.ok x)
  | steps + 1, x =>
    .ask (.derivatives (.ofVector x) none) fun
      | .error fault => .done (.error fault)
      | .ok d =>
        .ask .penaltyParameter fun (mu : α) =>
          match rate c m mu with
          | .error fault => .done (.error fault)
          | .ok rate => descent c m steps (x.zipWith (fun a g => a - rate * g) d.gradient)

/-- Takes some steps against the gradient from the state that the caller's storage holds. -/
def descending (steps : Nat) (c m : Supplied α) (v : Verdict) : Solver α Nat where
  takesLines := v.takesLines
  solve := fun call results =>
    if v.fails call then .done (call + 1, results, .error Verdict.failure)
    else
      .ask .start fun
        | .error fault => .done (call + 1, results, .error fault)
        | .ok x =>
          (descent c m steps x).bind fun
            | .error fault => .done (call + 1, results, .error fault)
            | .ok x =>
              .ask (.store (.ofVector x)) fun stored =>
                .done (call + 1, v.results (v.evaluations + steps) results, stored)

end Solver

end Separable
