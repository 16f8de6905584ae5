import Separable.Workspace

/-!
# Registration by name

Variables, terms and constraints are added to the named objects of a workspace. What is added is
referred to by name too, so that several names can be unknown at once. They are looked up in this
order: the object that is added to, then a storage before its reparameterization, and a term
before its arguments. Only the question whether a registry contains something looks that up first.
Nothing is added unless all names are known and all is usable that is supplied.
-/

namespace Separable

variable {α : Type}

/-- How an argument of a term is referred to. -/
inductive Argument where
  | handle (index : Int)
  | storage (name : String)
  deriving DecidableEq, Repr

namespace Workspace

/-- What an argument refers to. -/
def ref (w : Workspace α) : Argument → Except Fault Ref
  | .handle index => .ok (.handle index)
  | .storage name => (w.storages.get name).map .storage

/-- A storage, and the reparameterization that goes with it. -/
def variableParts (w : Workspace α) (storage : String) (reparam : Option (Given (Reparam α))) :
    Except Fault (Storage × Option (Reparam α)) := do
  let s ← w.storages.get storage
  match reparam with
  | none => return (s, none)
  | some c => return (s, some (← w.reparams.resolve c))

variable [Backend α] {β : Type}

/-- A term, and what its arguments refer to. -/
def termParts (w : Workspace α) (t : Recipe α) (arguments : List Argument) :
    Except Fault (Term α × List Ref) := do
  let t ← t.build w.terms
  return (t, ← arguments.mapM w.ref)

/-- Works on a registry with what is looked up once the registry is found. -/
def onRegistryUsing {γ : Type} (a : Address) (find : Workspace α → Except Fault γ)
    (x : γ → Action (Registry α) α β) : Action (Workspace α) α β := fun w =>
  onRegistry a (fun _ => Action.bind (Action.ofExcept (find w)) x) w

/-- Works on a graph with what is looked up once the graph is found. -/
def onGraphUsing {γ : Type} (a : Address) (find : Workspace α → Except Fault γ)
    (x : γ → Action (Graph α) α β) : Action (Workspace α) α β := fun w =>
  onGraph a (fun _ _ => Action.bind (Action.ofExcept (find w)) x) w

/-- Works on a problem with what is looked up once the problem is found. -/
def onProblemUsing {γ : Type} (name : String) (find : Workspace α → Except Fault γ)
    (x : γ → Action (Problem α) α β) : Action (Workspace α) α β := fun w =>
  onProblem name (fun _ => Action.bind (Action.ofExcept (find w)) x) w

/-- The variable that an argument refers to. -/
def resolve (a : Address) (argument : Argument) : Action (Workspace α) α (Variable α) :=
  onRegistryUsing a (fun w => w.ref argument) fun ref r => Action.ofExcept (r.resolve ref) r

/-- Whether an argument refers to a variable. -/
def contains (a : Address) (argument : Argument) : Action (Workspace α) α Bool := fun w =>
  Action.bind (Action.ofExcept (w.ref argument))
    (fun ref => onRegistry a fun _ r => Action.pure (r.contains ref) r) w

/-- Adds a variable to a registry. -/
def register (a : Address) (storage : String) (dimension : Option Int)
    (reparam : Option (Given (Reparam α))) : Action (Workspace α) α Nat :=
  onRegistryUsing a (fun w => w.variableParts storage reparam) fun (s, c) =>
    Registry.add s dimension c

/-- Adds a variable to a graph or a problem. -/
def addVariable (a : Address) (storage : String) (dimension : Option Int)
    (reparam : Option (Given (Reparam α))) : Action (Workspace α) α Nat := fun w =>
  match w.problem? a.owner, a with
  | some _, .named name =>
    onProblemUsing name (fun w => w.variableParts storage reparam)
      (fun (s, c) => Problem.addVariable s dimension c) w
  | _, _ =>
    onGraphUsing a (fun w => w.variableParts storage reparam)
      (fun (s, c) => Graph.addVariable s dimension c) w

/-- Adds a term to a graph. -/
def addTerm (a : Address) (t : Recipe α) (arguments : List Argument) :
    Action (Workspace α) α (Bound α) :=
  onGraphUsing a (fun w => w.termParts t arguments) fun (t, refs) => Graph.addTerm (.plain t) refs

/-- Adds a term to the objective of a problem. -/
def addObjective (problem : String) (t : Recipe α) (arguments : List Argument) :
    Action (Workspace α) α Unit :=
  onProblemUsing problem (fun w => w.termParts t arguments) fun (t, refs) =>
    Problem.addTerm t refs

/-- Adds the constraint that a term be at most zero. -/
def addConstraint (problem name : String) (t : Recipe α) (arguments : List Argument) :
    Action (Workspace α) α (Constraint α) :=
  onProblemUsing problem (fun w => w.termParts t arguments) fun (t, refs) =>
    Problem.addConstraint name t refs

end Workspace

end Separable
