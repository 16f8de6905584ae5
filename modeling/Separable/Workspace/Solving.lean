import Separable.Workspace

/-!
# Solving by name

A solver is let loose on a problem or on a single graph of a workspace. The results that it fills
in are kept under a name of their own, and a later run under that name fills in the same results.
-/

namespace Separable

namespace Workspace

variable {α : Type}

/-- The results of this name; fresh ones if there are none. -/
def resultsOf (w : Workspace α) (name : String) : Results α :=
  (w.results.find? name).getD Results.fresh

/-- Keeps results under a name. -/
def keepResults (name : Option String) (r : Results α) (w : Workspace α) : Workspace α :=
  match name with
  | none => w
  | some name => { w with results := w.results.put name r }

/-- What a solve leaves beside the workspace: results and the inner state of the solver. -/
structure Report (α σ : Type) where
  results : Results α
  solver : σ

variable [Backend α]

/-- Solves a problem with a solver in the inner state `start`. The results are filled into those of
the given name, if there is one, and are kept under that name. -/
def solve {σ : Type} (problem : String) (s : Solver α σ) (start : σ) (name : Option String)
    (w : Workspace α) : Outcome (Workspace α × Report α σ) α Unit :=
  let before := match name with
    | none => Results.fresh
    | some name => w.resultsOf name
  match w.problem? problem with
  | none => ⟨(w, ⟨before, start⟩), [], .error (.unknownName problem)⟩
  | some p =>
    let o := Run.solve s ⟨p, w.memory, start, before⟩
    let w := { w with memory := o.state.memory }.putObject problem (.problem o.state.problem)
    ⟨(w.keepResults name o.state.results, ⟨o.state.results, o.state.solver⟩), o.log, o.result⟩

/-- Lets a solver in the inner state `start` minimize a graph. The results are filled into those of
the given name. -/
def minimize {σ : Type} (a : Address) (s : Solver α σ) (start : σ) (name : String)
    (w : Workspace α) : Outcome (Workspace α × Report α σ) α Unit :=
  let before := w.resultsOf name
  match w.graph? a with
  | none => ⟨(w, ⟨before, start⟩), [], .error (w.missing a)⟩
  | some (m, g) =>
    let (view, log, solver, results, outcome) := (s.solve start before).run m ⟨g, w.memory⟩
    let w := { w with memory := view.memory }.putGraph a view.graph
    ⟨(w.keepResults (some name) results, ⟨results, solver⟩), log, outcome⟩

end Workspace

end Separable
