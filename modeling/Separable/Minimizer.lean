import Separable.Solver.Scripted

/-!
# General-purpose minimizers

A general-purpose minimizer knows nothing of graphs. It is given a start point and options, asks
for values with gradients and for Hessians at points of its choice, and comes back with an
optimum, or lets a fault through. A `Search` is one course of its questions and answers.

`Solver.minimizing` makes a solver of a minimizer: it starts the minimizer at the state that the
caller's storage holds and copies the optimum back if it consists of finite numbers. The inner
state of this solver is the list of what the minimizer has put on record, one record per call that
it took on.

`scripted` is a minimizer that follows a script and records what it was told.
-/

namespace Separable

open Scalar

variable {α ρ : Type}

/-- What a minimizer is given. -/
structure MinimizeRequest (α : Type) where
  start : List α
  method : String
  /-- Whether it can ask for Hessians. -/
  offersHessian : Bool
  tolerance : α
  maxIterations : Int

/-- What a minimizer comes back with. -/
structure Optimum (α : Type) where
  point : Tensor α
  value : α
  success : Bool
  status : Int
  message : String
  iterations : Option Int
  evaluations : Option Int

/-- A finite course of a minimizer's questions and answers. -/
inductive Search (α ρ : Type) where
  | finish (onRecord : ρ) (optimum : Optimum α)
  /-- A fault comes out of the minimizer. -/
  | escape (onRecord : ρ) (fault : Fault)
  | evaluate (x : Tensor α) (next : Except Fault (α × List α) → Search α ρ)
  | curvature (x : Tensor α) (next : Except Fault (Option (Hessian α)) → Search α ρ)

/-- A minimizer; its calls are numbered. A call that is refused leaves nothing on record. -/
abbrev Minimizer (α ρ : Type) := Nat → MinimizeRequest α → Except Fault (Search α ρ)

/-- The solver program for a search, with Hessians of this form. -/
def Search.program (mode : Option HessianMode) :
    Search α ρ → Program α (ρ × Except Fault (Optimum α))
  | .finish onRecord optimum => .done (onRecord, .ok optimum)
  | .escape onRecord fault => .done (onRecord, .error fault)
  | .evaluate x next =>
    .ask (.derivatives x none) fun d =>
      program mode (next (Except.map (fun d => (d.value, d.gradient)) d))
  | .curvature x next =>
    .ask (.derivatives x mode) fun d => program mode (next (Except.map (·.hessian) d))

/-- The options of a minimizer. -/
structure MinimizerConfig (α : Type) where
  method : String
  maxIterations : Int
  gradientTolerance : α
  hessian : Option HessianMode
  takesLines : Bool

/-- How a minimizer's own verdict reads as an exit condition. -/
def Optimum.exit (o : Optimum α) : ExitCondition :=
  if o.success then .gradientTolerance
  else if o.status = 1 then .noConvergence
  else if o.status = 2 then .functionTolerance
  else .internalError

section

variable [Backend α]

/-- Whether point and value are finite. -/
def Optimum.isFinite (o : Optimum α) : Bool :=
  o.point.entries.all Scalar.isFinite && Scalar.isFinite o.value

/-- What is asked of the minimizer. -/
def MinimizerConfig.request (config : MinimizerConfig α) (start : List α) : MinimizeRequest α :=
  ⟨start, config.method, config.hessian.isSome, config.gradientTolerance, config.maxIterations⟩

/-- The end of a call: a log line, then the results. -/
def MinimizerConfig.report {σ : Type} (config : MinimizerConfig α) (s : σ) (r : Results α) :
    Program α (σ × Results α × Except Fault Unit) :=
  let event : Event α := .minimized config.method r.message r.iterations r.value
  .ask (.log .debug event) fun _ =>
    if config.takesLines then .ask (.log .sink event) fun _ => .done (s, r, .ok ())
    else .done (s, r, .ok ())

/-- The end of a call in which the minimizer came back with an optimum. -/
def MinimizerConfig.accept {σ : Type} (config : MinimizerConfig α) (s : σ) (r : Results α)
    (o : Optimum α) : Program α (σ × Results α × Except Fault Unit) :=
  let r := { r with
    iterations := o.iterations.getD 0, evaluations := o.evaluations.getD 0, message := o.message }
  if o.isFinite then
    .ask (.store o.point) fun
      | .error fault => .done (s, r, .error fault)
      | .ok () => config.report s { r with value := some o.value, exit := o.exit }
  else config.report s { r with exit := .internalError }

/-- The solver that leaves the work to a minimizer. -/
def Solver.minimizing (config : MinimizerConfig α) (minimizer : Minimizer α ρ) :
    Solver α (List ρ) where
  takesLines := config.takesLines
  solve := fun records results =>
    .ask .scalars fun (n : Nat) =>
      if n = 0 then
        let results := { results with exit := .functionTolerance }
        .ask .valueAtStorage fun
          | .error fault => .done (records, results, .error fault)
          | .ok value => .done (records, { results with value := some value }, .ok ())
      else
        .ask .start fun
          | .error fault => .done (records, results, .error fault)
          | .ok start =>
            match minimizer records.length (config.request start) with
            | .error fault => .done (records, results, .error fault)
            | .ok search =>
              (search.program config.hessian).bind fun
                | (onRecord, .error fault) => .done (records ++ [onRecord], results, .error fault)
                | (onRecord, .ok o) => config.accept (records ++ [onRecord]) results o

end

/-! ## Following a script -/

/-- One call of a scripted minimizer: where it evaluates, and what it comes back with. -/
structure MinimizeScript (α : Type) where
  points : List (Supplied (Tensor α))
  optimum : Supplied (Optimum α)

/-- What a scripted minimizer was told at one point. -/
structure Sample (α : Type) where
  value : α
  gradient : List α
  hessian : Option (Hessian α)

/-- What a scripted minimizer puts on record. -/
structure MinimizeRecord (α : Type) where
  request : MinimizeRequest α
  samples : List (Sample α)

variable [Backend α]

/-- Evaluates at the remaining points, then comes back with the optimum. -/
def MinimizeScript.follow (script : MinimizeScript α) (request : MinimizeRequest α)
    (samples : List (Sample α)) : List (Supplied (Tensor α)) → Search α (MinimizeRecord α)
  | [] =>
    match script.optimum with
    | .error fault => .escape ⟨request, samples⟩ fault
    | .ok optimum => .finish ⟨request, samples⟩ optimum
  | .error fault :: _ => .escape ⟨request, samples⟩ fault
  | .ok x :: rest =>
    .evaluate x fun
      | .error fault => .escape ⟨request, samples⟩ fault
      | .ok (value, gradient) =>
        if request.offersHessian then
          .curvature x fun
            | .error fault => .escape ⟨request, samples⟩ fault
            | .ok hessian =>
              script.follow request (samples ++ [⟨value, gradient, hessian⟩]) rest
        else script.follow request (samples ++ [⟨value, gradient, none⟩]) rest

/-- The minimizer that follows a script, call by call; the last entry serves all later calls. -/
def scripted (script : List (MinimizeScript α)) : Minimizer α (MinimizeRecord α) :=
  fun call request =>
    (Solver.entryFor script call).map fun entry => entry.follow request [] entry.points

end Separable
